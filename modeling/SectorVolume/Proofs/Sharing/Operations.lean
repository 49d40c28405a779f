import SectorVolume.Proofs.Registry.Counts
import SectorVolume.Proofs.Sharing.Entries

/-!
Operations on handles that hold their entry, beside those on handles that look it up. Started from
the same entries, both carry out the same script on any engine, disk and cache, end with the same
fault or the same result, and leave the same entries.
-/

namespace SectorVolume

/-- Two computations have ended alike: with results that are related, or with the same fault. -/
inductive Alike {σ τ α β : Type} (Q : α → σ → β → τ → Prop) :
    EStateM.Result Fault σ α → EStateM.Result Fault τ β → Prop
  | ok {a : α} {s : σ} {b : β} {t : τ} (h : Q a s b t) : Alike Q (.ok a s) (.ok b t)
  | error (f : Fault) (s : σ) (t : τ) : Alike Q (.error f s) (.error f t)

namespace Alike

variable {σ τ α β α' β' : Type} {Q R : α → σ → β → τ → Prop}

theorem mono {x : EStateM.Result Fault σ α} {y : EStateM.Result Fault τ β} (h : Alike Q x y)
    (hQ : ∀ a s b t, Q a s b t → R a s b t) : Alike R x y := by
  cases h with
  | ok h => exact .ok (hQ _ _ _ _ h)
  | error f s t => exact .error f s t

theorem bind {m : EStateM Fault σ α} {k : α → EStateM Fault σ α'} {n : EStateM Fault τ β}
    {l : β → EStateM Fault τ β'} {s : σ} {t : τ} {R : α' → σ → β' → τ → Prop}
    (h : Alike Q (m s) (n t)) (hk : ∀ a s' b t', Q a s' b t' → Alike R (k a s') (l b t')) :
    Alike R ((m >>= k) s) ((n >>= l) t) := by
  generalize hm : m s = x at h
  generalize hn : n t = y at h
  cases h with
  | ok h =>
    rw [bind_of_ok hm, bind_of_ok hn]
    exact hk _ _ _ _ h
  | error f s' t' =>
    rw [bind_of_error hm, bind_of_error hn]
    exact .error f s' t'

end Alike

namespace OpenFiles

variable {α β γ : Type} {r : OpenFiles} {Q : α → OpenFiles → β → Prop}

/-- From the entries `r`, both carry out the same requests, and their results and the entries are
then as `Q` says. -/
def Couples (r : OpenFiles) (o : SharedM α) (v : VolumeM β) (Q : α → OpenFiles → β → Prop) :
    Prop :=
  ∀ e : Engine RamDisk,
    Alike (fun x e₁ y e₂ => e₂ = e₁ ∧ y.2 = x.2.plain ∧ r.Extends x.2 ∧ Q x.1 x.2 y.1)
      (Engine.run (o.run r) e) (Engine.run (v.run r.plain) e)

theorem couples_pure {a : α} {b : β} (h : Q a r b) : Couples r (pure a) (pure b) Q :=
  fun _ => .ok ⟨rfl, rfl, .refl r, h⟩

theorem Couples.mono {o : SharedM α} {v : VolumeM β} {R : α → OpenFiles → β → Prop}
    (h : Couples r o v Q) (hQ : ∀ a r' b, Q a r' b → R a r' b) : Couples r o v R :=
  fun e => (h e).mono fun _ _ _ _ ⟨hengine, hplain, hext, hends⟩ =>
    ⟨hengine, hplain, hext, hQ _ _ _ hends⟩

theorem Couples.bind {α' β' : Type} {o : SharedM α} {v : VolumeM β} {k : α → SharedM α'}
    {l : β → VolumeM β'} {R : α' → OpenFiles → β' → Prop} (h : Couples r o v Q)
    (hk : ∀ a r' b, r.Extends r' → Q a r' b → Couples r' (k a) (l b) R) :
    Couples r (o >>= k) (v >>= l) R := by
  intro e
  rw [StateT.run_bind, StateT.run_bind, Engine.run_bind, Engine.run_bind]
  refine (h e).bind ?_
  rintro ⟨a, r'⟩ _ ⟨b, g⟩ _ ⟨rfl, rfl, hext, hQ⟩
  refine Alike.mono (hk a r' b hext hQ _) ?_
  rintro ⟨a', r''⟩ _ ⟨b', g'⟩ _ ⟨rfl, rfl, hext', hR⟩
  exact ⟨rfl, rfl, hext.trans hext', hR⟩

/-- A result of the same script. -/
theorem couples_lift {p : Script γ} {Q : γ → OpenFiles → γ → Prop} (h : ∀ c, Q c r c) :
    Couples r (liftM p) (liftM p) Q := by
  intro e
  have hshared : (liftM p : SharedM γ).run r = p >>= fun c => pure (c, r) := rfl
  have hplain : (liftM p : VolumeM γ).run r.plain = p >>= fun c => pure (c, r.plain) := rfl
  rw [hshared, hplain, Engine.run_bind, Engine.run_bind]
  cases hrun : Engine.run p e with
  | ok c e' =>
    rw [bind_of_ok hrun, bind_of_ok hrun]
    exact .ok ⟨rfl, rfl, .refl r, h c⟩
  | error f e' =>
    rw [bind_of_error hrun, bind_of_error hrun]
    exact .error f e' e'

theorem couples_ofExcept {c : Except Fault γ} {Q : γ → OpenFiles → γ → Prop}
    (h : ∀ a, c = .ok a → Q a r a) : Couples r (SharedM.ofExcept c) (VolumeM.ofExcept c) Q := by
  intro e
  cases c with
  | ok a => exact .ok ⟨rfl, rfl, .refl r, h a rfl⟩
  | error f => exact .error f e e

theorem couples_fail {f : Fault} {k : Unit → SharedM α} {l : Unit → VolumeM β} :
    Couples r (SharedM.ofExcept (.error f) >>= k) (VolumeM.ofExcept (.error f) >>= l) Q :=
  (couples_ofExcept (Q := fun _ _ _ => False) nofun).bind fun _ _ _ _ => False.elim

theorem couples_get :
    Couples r get get fun r₀ r' g => r₀ = r ∧ r' = r ∧ g = r.plain :=
  fun _ => .ok ⟨rfl, rfl, .refl r, rfl, rfl, rfl⟩

theorem couples_modify {f : OpenFiles → OpenFiles} {g : Registry → Registry}
    {Q : PUnit → OpenFiles → PUnit → Prop} (hext : r.Extends (f r))
    (hplain : (f r).plain = g r.plain) (h : Q ⟨⟩ (f r) ⟨⟩) : Couples r (modify f) (modify g) Q :=
  fun _ => .ok ⟨rfl, hplain.symm, hext, h⟩

variable {hs : List FileHandle} {h : FileHandle}

theorem couples_entry (hr : r.Shares hs) (hmem : h ∈ hs) :
    Couples r h.entry (VolumeM.entry (h.plain r).sector) fun e r' e' =>
      r' = r ∧ e = (r.file h.place).toOpenEntry ∧ e' = (r.file h.place).toOpenEntry :=
  fun _ => .ok ⟨rfl, rfl, .refl r, rfl, rfl, hr.entry_plain hmem⟩

theorem couples_onInode {k : Handle → SharedM α} {v : VolumeM β}
    (hk : Couples r (k (h.plain r)) v Q) : Couples r (h.onInode >>= k) v Q := hk

/-- Changing an entry that is held. -/
theorem couples_setEntry (hr : r.Shares hs) (hmem : h ∈ hs) {e : OpenEntry}
    (hs' : List FileHandle) (hopeners : e.openers = holders hs' h.place)
    (hother : ∀ p, p ≠ h.place → holders hs' p = holders hs p) :
    Couples r (h.setEntry e) (VolumeM.setEntry (h.plain r).sector e) fun _ r' _ =>
      r'.Shares hs' :=
  couples_modify (.change r h.place e) (hr.plain_change (hr.registered_of_mem hmem))
    (hr.change (hr.registered_of_mem hmem) hs' hopeners hother)

/-- A handle is told by the sector of its entry, which stays. -/
theorem Extends.plain_replace {r' : OpenFiles} (hext : r.Extends r')
    (hlt : h.place < r.entries.length) (b : Bool) :
    (⟨(h.plain r).sector, b⟩ : Handle) = FileHandle.plain r' ⟨h.place, b⟩ :=
  (hext.plain_eq (k := ⟨h.place, b⟩) hlt).symm

theorem couples_open (hr : r.Shares hs) (x : UInt32) :
    Couples r (FileHandle.open x) (Volume.open x) fun h r' h' =>
      r'.Shares (h :: hs) ∧ h' = h.plain r' := by
  refine couples_get.bind ?_
  rintro _ r _ - ⟨rfl, rfl, rfl⟩
  cases hx : r.registered.get? x with
  | none =>
    simp only [get?_plain, hx, Option.map_none]
    refine (couples_lift (Q := fun _ r' _ => r' = r) fun _ => rfl).bind ?_
    rintro _ r _ - rfl
    refine (couples_modify (Q := fun _ r' _ => r' = r.register x) (.register r x)
      hr.plain_register rfl).bind ?_
    rintro _ _ _ - rfl
    refine couples_pure ⟨hr.register hx, ?_⟩
    rw [FileHandle.plain, file_register_self]
  | some p =>
    obtain ⟨hlt, hsector, hcount⟩ := hr.registered x p hx
    simp only [get?_plain, hx, Option.map_some]
    refine (couples_modify (Q := fun _ r' _ => r'.Shares (⟨p, false⟩ :: hs))
      (.change r p _) (hr.plain_change hx) (hr.change hx _ ?_ ?_)).bind ?_
    · rw [holders_cons, if_pos rfl, hcount]
    · exact fun q hq => holders_cons_of_ne hq
    · intro _ r' _ hext hr'
      refine couples_pure ⟨hr', ?_⟩
      rw [← hext.plain_replace (h := ⟨p, false⟩) hlt]
      exact congrArg (Handle.mk · false) hsector.symm

theorem couples_reopen (hr : r.Shares hs) (hmem : h ∈ hs) :
    Couples r h.reopen (h.plain r).reopen fun k r' k' =>
      r'.Shares (k :: hs) ∧ k' = k.plain r' := by
  refine (couples_entry hr hmem).bind ?_
  rintro _ r _ - ⟨rfl, rfl, rfl⟩
  refine (couples_setEntry hr hmem (⟨h.place, false⟩ :: hs) ?_ ?_).bind ?_
  · rw [holders_cons, if_pos rfl, hr.openers_of_mem hmem]
  · exact fun p hp => holders_cons_of_ne hp
  · intro _ r' _ hext hr'
    exact couples_pure ⟨hr', hext.plain_replace (hr.lt_of_mem hmem) false⟩

theorem couples_remove (hr : r.Shares hs) (hmem : h ∈ hs) :
    Couples r h.remove (h.plain r).remove fun _ r' _ => r'.Shares hs := by
  refine (couples_entry hr hmem).bind ?_
  rintro _ r _ - ⟨rfl, rfl, rfl⟩
  exact couples_setEntry hr hmem hs (hr.openers_of_mem hmem) fun _ _ => rfl

theorem couples_deny (hr : r.Shares (h :: hs)) :
    Couples r h.deny (h.plain r).deny fun k r' k' =>
      r'.Shares (k :: hs) ∧ k' = k.plain r' := by
  have hmem : h ∈ h :: hs := List.mem_cons_self
  cases hdenies : h.denies with
  | true =>
    rw [FileHandle.deny, Handle.deny, FileHandle.denies_plain, if_pos hdenies, if_pos hdenies]
    exact couples_fail
  | false =>
    have hfree : ¬h.denies = true := by simp [hdenies]
    rw [FileHandle.deny, Handle.deny, FileHandle.denies_plain, if_neg hfree, if_neg hfree]
    refine (couples_entry hr hmem).bind ?_
    rintro _ r _ - ⟨rfl, rfl, rfl⟩
    dsimp only
    split
    · exact couples_fail
    · refine (couples_setEntry hr hmem (h :: hs) ?_ fun _ _ => rfl).bind ?_
      · exact hr.openers_of_mem hmem
      · intro _ r' _ hext hr'
        exact couples_pure ⟨hr'.replace, hext.plain_replace (hr.lt_of_mem hmem) true⟩

theorem couples_allow (hr : r.Shares (h :: hs)) :
    Couples r h.allow (h.plain r).allow fun k r' k' =>
      k = { h with denies := false } ∧ r'.Shares (k :: hs) ∧ k' = k.plain r' := by
  have hmem : h ∈ h :: hs := List.mem_cons_self
  cases hdenies : h.denies with
  | false =>
    have hnot : (!h.denies) = true := by simp [hdenies]
    rw [FileHandle.allow, Handle.allow, FileHandle.denies_plain, if_pos hnot, if_pos hnot]
    exact couples_fail
  | true =>
    have hnot : ¬(!h.denies) = true := by simp [hdenies]
    rw [FileHandle.allow, Handle.allow, FileHandle.denies_plain, if_neg hnot, if_neg hnot]
    refine (couples_entry hr hmem).bind ?_
    rintro _ r _ - ⟨rfl, rfl, rfl⟩
    refine (couples_ofExcept (Q := fun n r' n' => r' = r ∧ n' = n) fun _ _ => ⟨rfl, rfl⟩).bind ?_
    rintro n r _ - ⟨rfl, rfl⟩
    refine (couples_setEntry hr hmem (h :: hs) ?_ fun _ _ => rfl).bind ?_
    · exact hr.openers_of_mem hmem
    · intro _ r' _ hext hr'
      exact couples_pure ⟨rfl, hr'.replace, hext.plain_replace (hr.lt_of_mem hmem) false⟩

theorem run_retire (hlt : h.place < r.entries.length) (e : OpenEntry) (removed : Bool) :
    (h.setEntry e >>= fun _ => h.retire removed).run r =
      (if removed then liftM (Handle.reclaim (r.file h.place).sector) else pure () :
        SharedM Unit).run ((r.change h.place e).unregister (r.file h.place).sector) := by
  rw [← (Extends.change r h.place e).sector h.place hlt]
  rfl

/-- The last handle to leave finds its entry by its place, the other kind by its sector. -/
theorem couples_leave (hr : r.Shares (h :: hs)) :
    Couples r h.leave (h.plain r).leave fun _ r' _ => r'.Shares hs := by
  have hmem : h ∈ h :: hs := List.mem_cons_self
  have hplace := hr.registered_of_mem hmem
  obtain ⟨hlt, -, hcount⟩ := hr.registered _ _ hplace
  rw [holders_cons, if_pos rfl] at hcount
  have hother : ∀ p, p ≠ h.place → holders hs p = holders (h :: hs) p :=
    fun p hp => (holders_cons_of_ne hp).symm
  refine (couples_entry hr hmem).bind ?_
  rintro _ r _ - ⟨rfl, rfl, rfl⟩
  have hpred : checkedPred (r.file h.place).openers = .ok (holders hs h.place) := by
    rw [hcount]
    rfl
  refine (couples_ofExcept (Q := fun n r' n' => r' = r ∧ n' = n ∧ n = holders hs h.place)
    fun n hn => ⟨rfl, rfl, Except.ok.inj (hn.symm.trans hpred)⟩).bind ?_
  rintro n r _ - ⟨rfl, rfl, hn⟩
  subst hn
  by_cases hlast : holders hs h.place = 0
  · -- between its two changes the entry is still registered, without openers
    let e : OpenEntry := { (r.file h.place).toOpenEntry with openers := holders hs h.place }
    have hleft := (hr.change (e := e) hplace hs rfl hother).unregister hplace hlast
    have hrest : Couples ((r.change h.place e).unregister (r.file h.place).sector)
        (if e.removed then liftM (Handle.reclaim (r.file h.place).sector) else pure ())
        (if e.removed then liftM (Handle.reclaim (r.file h.place).sector) else pure ())
        fun _ r' _ => r'.Shares hs := by
      split
      · exact couples_lift fun _ => hleft
      · exact couples_pure hleft
    rw [if_pos hlast, if_neg (by rw [hlast]; exact Nat.lt_irrefl 0)]
    intro engine
    rw [run_retire hlt]
    have hend := hrest engine
    rw [hr.plain_unregister_change hplace] at hend
    refine hend.mono ?_
    rintro _ _ _ _ ⟨rfl, hplain, hext, hleft⟩
    exact ⟨rfl, hplain, ((Extends.change r h.place e).trans (.unregister _ _)).trans hext, hleft⟩
  · rw [if_neg hlast, if_pos (Nat.pos_of_ne_zero hlast), bind_pure_unit]
    exact couples_setEntry hr hmem hs rfl hother

theorem couples_close (hr : r.Shares (h :: hs)) :
    Couples r h.close (h.plain r).close fun _ r' _ => r'.Shares hs := by
  rw [FileHandle.close, Handle.close_eq, FileHandle.denies_plain]
  cases hdenies : h.denies with
  | false =>
    rw [if_neg Bool.false_ne_true, if_neg Bool.false_ne_true]
    exact couples_leave hr
  | true =>
    rw [if_pos rfl, if_pos rfl]
    refine (couples_allow hr).bind ?_
    rintro _ r' _ hext ⟨rfl, hr', -⟩
    rw [← hext.plain_eq (hr.lt_of_mem List.mem_cons_self)]
    exact couples_leave (h := h) hr'.replace

/-- A question about an entry. -/
theorem couples_query (hr : r.Shares hs) (hmem : h ∈ hs) (f : OpenEntry → γ) :
    Couples r (h.entry >>= fun e => pure (f e))
      (VolumeM.entry (h.plain r).sector >>= fun e => pure (f e)) fun b r' b' =>
      r' = r ∧ b' = b := by
  refine (couples_entry hr hmem).bind ?_
  rintro _ r _ - ⟨rfl, rfl, rfl⟩
  exact couples_pure ⟨rfl, rfl⟩

theorem couples_writeAt (hr : r.Shares hs) (hmem : h ∈ hs) (offset : Nat) (data : Array UInt8) :
    Couples r (h.writeAt offset data) ((h.plain r).writeAt offset data) fun n r' n' =>
      r' = r ∧ n' = n := by
  refine (couples_query hr hmem fun e => decide (0 < e.denials)).bind ?_
  rintro denied r _ - ⟨rfl, rfl⟩
  split
  · exact couples_pure ⟨rfl, rfl⟩
  · split
    · exact couples_pure ⟨rfl, rfl⟩
    · refine couples_onInode ((couples_lift (Q := fun n r' n' => r' = r ∧ n' = n)
        fun _ => ⟨rfl, rfl⟩).bind ?_)
      rintro _ r grown - ⟨rfl, rfl⟩
      cases grown with
      | error refusal => exact couples_pure ⟨rfl, rfl⟩
      | ok n => exact couples_lift fun _ => ⟨rfl, rfl⟩

end OpenFiles

end SectorVolume
