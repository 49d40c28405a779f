import SectorVolume.Proofs.Resize.Footprint

/-!
A walk fits what is below its pointers: if the supply has as many sectors as are lacking it takes
those and ends with the pointers to the fitted trees, and otherwise it takes the whole supply and
is refused. Two such walks in turn are one over all their pointers, and a data block is fitted by
itself.
-/

namespace SectorVolume

namespace Walk

variable {α β γ : Type}

/-- The walk fits the blocks below `roots` to `n` data blocks; `out` reads the new pointers off
its answer. -/
structure Refits (w : Walk α) (roots : Roots) (n : Nat) (out : α → Roots) : Prop where
  fitted : ∀ d j, Ready d roots → ∀ taken rest, d.map.supply = taken ++ rest →
    taken.length = (forest d.content roots).lacking n →
    ∃ a saved d', w.Yields j d (.ok a)
        ⟨taken.reverse ++ j.allocated, saved ++ j.overwritten⟩ d' ∧
      Fitted d d' roots (out a) n taken saved
  refused : ∀ d j, Ready d roots → d.map.supply.length < (forest d.content roots).lacking n →
    ∃ saved d', w.Yields j d (.error .noSpace)
        ⟨d.map.supply.reverse ++ j.allocated, saved ++ j.overwritten⟩ d' ∧
      Touched d d' (forest d.content roots) d.map.supply saved ∧
      d'.map = (d.map.grantAll d.map.supply).refuse

theorem refits_pure {a : α} {out : α → Roots} (h : out a = []) (n : Nat) :
    Refits (pure a) [] n out where
  fitted d j _ taken rest _ hlength := by
    obtain rfl : taken = [] := List.length_eq_zero_iff.1 hlength
    refine ⟨a, [], d, yields_pure _ _ _, ?_⟩
    rw [h]
    exact { toTouched := Touched.refl d _, refit := .nil, map := rfl, zeroed := by simp }
  refused d j _ hlength := absurd hlength (by simp)

section Bind

variable {w : Walk α} {w' : Walk β} {roots roots' : Roots} {n k : Nat} {out : α → Roots}
  {out' : β → Roots} {f : α → β → γ} {out'' : γ → Roots} (h : Refits w roots n out)
  (h' : Refits w' roots' (n - k) out') (hspan : ∀ c, (forest c roots).span = k)
  {d : Medium} (j : Journal) (hready : Ready d (roots ++ roots'))

include h h' hspan hready

/-- There are sectors enough for both walks. -/
theorem Refits.fitted_bind (hout : ∀ a b, out'' (f a b) = out a ++ out' b)
    {taken rest : List UInt32}
    (hsupply : d.map.supply = taken ++ rest)
    (hlength : taken.length = (forest d.content (roots ++ roots')).lacking n) :
    ∃ c saved d', (w >>= fun a => w' >>= fun b => pure (f a b)).Yields j d (.ok c)
        ⟨taken.reverse ++ j.allocated, saved ++ j.overwritten⟩ d' ∧
      Fitted d d' (roots ++ roots') (out'' c) n taken saved := by
  rw [forest_append, Forest.lacking_append, hspan] at hlength
  obtain ⟨first, second, rfl, hfirst⟩ :
      ∃ first second, taken = first ++ second ∧
        first.length = (forest d.content roots).lacking n :=
    ⟨_, _, (List.take_append_drop _ taken).symm, List.length_take_of_le (by omega)⟩
  have hsupply' := hsupply
  rw [List.append_assoc] at hsupply'
  obtain ⟨a, saved, d', hyields, hfitted⟩ :=
    h.fitted d j hready.left first (second ++ rest) hsupply' hfirst
  have hready' := Fitted.ready_right hready hfitted hsupply'
  have hforest := Fitted.forest_right hready hfitted.toTouched hsupply'
  have hsecond : second.length = (forest d'.content roots').lacking (n - k) := by
    rw [hforest]
    rw [List.length_append] at hlength
    omega
  -- Behind a walk that returned sectors nothing is taken, so its supply does not matter.
  obtain ⟨rest', hsupply''⟩ : ∃ rest', d'.map.supply = second ++ rest' := by
    rcases Nat.le_total k n with hle | hle
    · refine ⟨rest, ?_⟩
      rw [hfitted.map, Forest.beyond_of_span_le _ (by rwa [hspan])]
      exact FreeMap.supply_grantAll hready.within hsupply'
    · rw [Nat.sub_eq_zero_of_le hle, Forest.lacking_zero, List.length_eq_zero_iff] at hsecond
      exact ⟨_, by rw [hsecond, List.nil_append]⟩
  obtain ⟨b, saved', d'', hyields', hfitted'⟩ := h'.fitted d'
    ⟨first.reverse ++ j.allocated, saved ++ j.overwritten⟩ hready' second rest' hsupply'' hsecond
  refine ⟨f a b, saved' ++ saved, d'', ?_, ?_⟩
  · have htail := hyields'.bind_pure (f a)
    have hboth := Yields.bind (k := fun a => w' >>= fun b => pure (f a b)) hyields htail
    simpa only [List.reverse_append, List.append_assoc] using hboth
  · rw [hout]
    rw [← hspan d.content] at hfitted'
    exact Fitted.append hready hfitted hfitted' hsupply

/-- The first walk is refused already, or the second one is. -/
theorem Refits.refused_bind
    (hlength : d.map.supply.length < (forest d.content (roots ++ roots')).lacking n) :
    ∃ saved d', (w >>= fun a => w' >>= fun b => pure (f a b)).Yields j d (.error .noSpace)
        ⟨d.map.supply.reverse ++ j.allocated, saved ++ j.overwritten⟩ d' ∧
      Touched d d' (forest d.content (roots ++ roots')) d.map.supply saved ∧
      d'.map = (d.map.grantAll d.map.supply).refuse := by
  rw [forest_append, Forest.lacking_append, hspan] at hlength
  by_cases hfew : d.map.supply.length < (forest d.content roots).lacking n
  · obtain ⟨saved, d', hyields, htouched, hmap⟩ := h.refused d j hready.left hfew
    refine ⟨saved, d', hyields.bind_error _, htouched.mono fun s hs => ?_, hmap⟩
    rw [forest_append, Forest.nodes_append]
    exact List.mem_append_left _ hs
  · obtain ⟨first, second, hsupply, hfirst⟩ :
        ∃ first second, d.map.supply = first ++ second ∧
          first.length = (forest d.content roots).lacking n :=
      ⟨_, _, (List.take_append_drop _ _).symm, List.length_take_of_le (by omega)⟩
    obtain ⟨a, saved, d', hyields, hfitted⟩ :=
      h.fitted d j hready.left first second hsupply hfirst
    have hready' := Fitted.ready_right hready hfitted hsupply
    have hforest := Fitted.forest_right hready hfitted.toTouched hsupply
    have hsecond : second.length < (forest d.content roots').lacking (n - k) := by
      rw [hsupply, List.length_append] at hlength
      omega
    have hle : k ≤ n := by
      by_contra hlt
      rw [Nat.sub_eq_zero_of_le (by omega), Forest.lacking_zero] at hsecond
      omega
    have hmap := hfitted.map
    rw [Forest.beyond_of_span_le _ (by rwa [hspan]), FreeMap.takeBackAll_nil] at hmap
    have hsupply' : d'.map.supply = second := by
      rw [hmap]
      exact FreeMap.supply_grantAll hready.within hsupply
    obtain ⟨saved', d'', hyields', htouched', hmap'⟩ := h'.refused d'
      ⟨first.reverse ++ j.allocated, saved ++ j.overwritten⟩ hready' (by
        rw [hsupply', hforest]
        exact hsecond)
    refine ⟨saved' ++ saved, d'', ?_, ?_, ?_⟩
    · have htail := hyields'.bind_error fun b => pure (f a b)
      have hboth := Yields.bind (k := fun a => w' >>= fun b => pure (f a b)) hyields htail
      rw [hsupply'] at hboth
      simpa only [hsupply, List.reverse_append, List.append_assoc] using hboth
    · rw [hsupply', hforest] at htouched'
      rw [hsupply, forest_append]
      apply hfitted.toTouched.trans htouched'
      intro s hs
      have hs' := Forest.mem_sectors.2 (Or.inl hs)
      exact ⟨fun hn => hready.disjoint (Forest.mem_sectors.2 (Or.inl hn)) hs',
        hready.right.notMem_taken hsupply hs'⟩
    · rw [hmap', hsupply', hmap, hsupply, FreeMap.grantAll_append]

end Bind

theorem Refits.bind {w : Walk α} {w' : Walk β} {roots roots' : Roots} {n k : Nat}
    {out : α → Roots} {out' : β → Roots} {f : α → β → γ} {out'' : γ → Roots}
    (h : Refits w roots n out) (h' : Refits w' roots' (n - k) out')
    (hspan : ∀ c, (forest c roots).span = k) (hout : ∀ a b, out'' (f a b) = out a ++ out' b) :
    Refits (w >>= fun a => w' >>= fun b => pure (f a b)) (roots ++ roots') n out'' where
  fitted _ j hready _ _ hsupply hlength := h.fitted_bind h' hspan j hready hout hsupply hlength
  refused _ j hready hlength := h.refused_bind h' hspan j hready hlength

section Data

variable {d : Medium} {block : UInt32} {n : Nat}

/-- A block that is there and needed. -/
theorem fitted_keep (hblock : block ≠ 0) (hn : n ≠ 0) :
    Fitted d d [(0, block)] [(0, block)] n [] [] := by
  refine { toTouched := Touched.refl d _, refit := ?_, map := ?_, zeroed := by simp }
  · simp only [forest_cons, forest_nil, tree_zero_of_ne _ hblock]
    exact .keep hn .nil
  · simp [tree_zero_of_ne _ hblock, Tree.beyond, hn]

/-- A block that is neither there nor needed. -/
theorem fitted_absent : Fitted d d [(0, 0)] [(0, 0)] 0 [] [] := by
  refine { toTouched := Touched.refl d _, refit := ?_, map := rfl, zeroed := by simp }
  simpa using Forest.Refit.drop (t := (.hole : Tree 0)) .nil

/-- A block that is needed is put into a sector of its own, zeroed. -/
theorem fitted_make {s : UInt32} (hs : s ≠ 0) (hn : n ≠ 0) :
    Fitted d (({ d with map := d.map.grant s } : Medium).put s Sector.zero)
      [(0, 0)] [(0, s)] n [s]
      [] := by
  refine {
    size := rfl
    mem_nodes := by simp
    saved_eq := by simp
    kept := ?_
    refit := ?_
    map := ?_
    zeroed := ?_
  }
  · intro t ht _
    exact Medium.content_put_of_ne (by simpa using ht)
  · simp only [forest_cons, forest_nil, tree_null, tree_zero_of_ne _ hs]
    exact .make hn .nil
  · simp [Tree.beyond]
  · intro t ht _
    rw [List.mem_singleton.1 ht, Medium.content_put_self]

/-- A block that is not needed is given back. -/
theorem fitted_drop (hblock : block ≠ 0) :
    Fitted d { d with map := d.map.takeBack block } [(0, block)] [(0, 0)] 0 [] [] := by
  refine {
    size := rfl
    mem_nodes := by simp
    saved_eq := by simp
    kept := fun _ _ _ => rfl
    refit := ?_
    map := ?_
    zeroed := by simp
  }
  · simp only [forest_cons, forest_nil, tree_null]
    exact .drop .nil
  · simp [tree_zero_of_ne _ hblock, Tree.beyond]

end Data

theorem refits_fit_zero (block : UInt32) (n : Nat) :
    Refits (fit 0 block n) [(0, block)] n fun b => [(0, b)] where
  fitted d j hready taken rest hsupply hlength := by
    simp only [forest_cons, forest_nil, Forest.lacking_cons, Forest.lacking_nil,
      Nat.add_zero] at hlength
    by_cases hblock : block = 0 <;> by_cases hn : n = 0
    · subst hblock hn
      obtain rfl : taken = [] := by simpa using hlength
      refine ⟨0, [], d, ?_, fitted_absent⟩
      simpa [fit] using yields_pure (0 : UInt32) j d
    · subst hblock
      obtain ⟨s, rfl⟩ : ∃ s, taken = [s] := List.length_eq_one_iff.1 (by simpa [hn] using hlength)
      have hfree := FreeMap.mem_supply hready.within (s := s) (by simp [hsupply])
      obtain ⟨hpos, hexists, _⟩ := hready.within _ hfree
      have hs : s ≠ 0 := by
        rintro rfl
        exact absurd hpos (by decide)
      have hput :=
        Script.eval_putSector (m := { d with map := d.map.grant s }) hexists Sector.zero
      refine ⟨s, [], ({ d with map := d.map.grant s } : Medium).put s Sector.zero, ?_,
        fitted_make hs hn⟩
      rw [fit, if_pos ⟨hn, rfl⟩]
      exact (yields_take_of_cons hready.within hsupply j).bind
        ((yields_lift hput _).bind (yields_pure _ _ _))
    · subst hn
      obtain rfl : taken = [] := by simpa [tree_zero_of_ne _ hblock] using hlength
      have hused := hready.used block (by simp [tree_zero_of_ne _ hblock, Tree.sectors])
      refine ⟨0, [], { d with map := d.map.takeBack block }, ?_, fitted_drop hblock⟩
      rw [fit, if_neg (by simp), if_pos ⟨rfl, hblock⟩]
      exact (yields_lift (Script.eval_releaseSector hused) j).bind (yields_pure _ _ _)
    · obtain rfl : taken = [] := by simpa [tree_zero_of_ne _ hblock] using hlength
      refine ⟨block, [], d, ?_, fitted_keep hblock hn⟩
      simpa [fit, hblock, hn] using yields_pure block j d
  refused d j hready hlength := by
    simp only [forest_cons, forest_nil, Forest.lacking_cons, Forest.lacking_nil,
      Nat.add_zero] at hlength
    by_cases hblock : block = 0
    · subst hblock
      have hn : n ≠ 0 := by
        rintro rfl
        simp at hlength
      have hsupply : d.map.supply = [] := by simpa [hn] using hlength
      refine ⟨[], { d with map := d.map.refuse }, ?_, ?_, ?_⟩
      · rw [fit, if_pos ⟨hn, rfl⟩, hsupply]
        exact (yields_take_of_nil hsupply j).bind_error _
      · rw [hsupply]
        exact ⟨rfl, by simp, by simp, fun _ _ _ => rfl⟩
      · rw [hsupply, FreeMap.grantAll_nil]
    · simp [tree_zero_of_ne _ hblock] at hlength

end Walk

end SectorVolume
