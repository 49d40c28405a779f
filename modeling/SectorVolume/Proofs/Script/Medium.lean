import SectorVolume.Script
import SectorVolume.Proofs.Cache.Perform
import SectorVolume.Proofs.FreeMap.Batch

/-!
Scripts on a plain medium: so many sectors with their bytes, and a free map, with nothing in
between. An engine with a coherent cache carries out a script just as the medium that it shows
does, so what is proved of scripts on media holds behind every cache.
-/

namespace SectorVolume

structure Medium where
  size : Nat
  content : UInt32 → Sector
  map : FreeMap

namespace Medium

def put (m : Medium) (s : UInt32) (data : Sector) : Medium :=
  { m with content := Function.update m.content s data }

@[simp] theorem map_put (m : Medium) (s : UInt32) (data : Sector) : (m.put s data).map = m.map :=
  rfl

@[simp] theorem content_put_self (m : Medium) (s : UInt32) (data : Sector) :
    (m.put s data).content s = data := Function.update_self ..

theorem content_put_of_ne {m : Medium} {s t : UInt32} {data : Sector} (h : t ≠ s) :
    (m.put s data).content t = m.content t := Function.update_of_ne h ..

end Medium

namespace Script

variable {α β : Type}

/-- Carries out a script on a medium. A sector the medium does not have is a fault. -/
def eval : Script α → Medium → Except Fault (α × Medium)
  | done a, m => .ok (a, m)
  | fail f, _ => .error f
  | fetch s next, m =>
    if s.toNat < m.size then (next (m.content s)).eval m else .error .outOfBounds
  | put s data next, m =>
    if s.toNat < m.size then next.eval (m.put s data) else .error .outOfBounds
  | update s f next, m =>
    if s.toNat < m.size then
      match f (m.content s) with
      | .ok data => next.eval (m.put s data)
      | .error e => .error e
    else .error .outOfBounds
  | alloc next, m => (next (m.map.alloc 1).1).eval { m with map := (m.map.alloc 1).2 }
  | release s next, m =>
    match m.map.release s 1 with
    | .ok map => next.eval { m with map }
    | .error e => .error e

theorem eval_bind (p : Script α) (k : α → Script β) (m : Medium) :
    (p >>= k).eval m =
      match p.eval m with
      | .ok (a, m') => (k a).eval m'
      | .error f => .error f := by
  change (p.bind k).eval m = _
  induction p generalizing m with
  | done a => rfl
  | fail f => rfl
  | fetch s next ih =>
    simp only [bind, eval]
    split
    · exact ih _ m
    · rfl
  | put s data next ih =>
    simp only [bind, eval]
    split
    · exact ih _
    · rfl
  | update s f next ih =>
    simp only [bind, eval]
    split
    · split
      · exact ih _
      · rfl
    · rfl
  | alloc next ih => exact ih _ _
  | release s next ih =>
    simp only [bind, eval]
    split
    · exact ih _
    · rfl

theorem eval_bind_of_ok {p : Script α} {k : α → Script β} {m m' : Medium} {a : α}
    (h : p.eval m = .ok (a, m')) : (p >>= k).eval m = (k a).eval m' := by
  rw [eval_bind, h]

theorem eval_bind_of_error {p : Script α} {k : α → Script β} {m : Medium} {f : Fault}
    (h : p.eval m = .error f) : (p >>= k).eval m = .error f := by
  rw [eval_bind, h]

@[simp] theorem eval_pure (a : α) (m : Medium) : (pure a : Script α).eval m = .ok (a, m) := rfl

/-- Scripts that leave the medium alone, one for each element of a list. -/
theorem eval_mapM {f : α → Script β} {g : α → β} {m : Medium} {xs : List α}
    (h : ∀ a ∈ xs, (f a).eval m = .ok (g a, m)) : (xs.mapM f).eval m = .ok (xs.map g, m) := by
  induction xs with
  | nil => rfl
  | cons a xs ih =>
    rw [List.mapM_cons, eval_bind_of_ok (h a List.mem_cons_self),
      eval_bind_of_ok (ih fun b hb => h b (List.mem_cons_of_mem _ hb))]
    rfl

theorem eval_fetchSector {m : Medium} {s : UInt32} (h : s.toNat < m.size) :
    (fetchSector s).eval m = .ok (m.content s, m) := if_pos h

theorem eval_putSector {m : Medium} {s : UInt32} (h : s.toNat < m.size) (data : Sector) :
    (putSector s data).eval m = .ok ((), m.put s data) := if_pos h

theorem eval_updateSector_of_ok {m : Medium} {s : UInt32} {f : Sector → Except Fault Sector}
    {data : Sector} (h : s.toNat < m.size) (hf : f (m.content s) = .ok data) :
    (updateSector s f).eval m = .ok ((), m.put s data) := by
  simp only [updateSector, eval, if_pos h, hf]

theorem eval_updateSector_of_error {m : Medium} {s : UInt32} {f : Sector → Except Fault Sector}
    {e : Fault} (h : s.toNat < m.size) (hf : f (m.content s) = .error e) :
    (updateSector s f).eval m = .error e := by
  simp only [updateSector, eval, if_pos h, hf]

theorem eval_allocSector_of_nil {m : Medium} (h : m.map.supply = []) :
    allocSector.eval m = .ok (none, { m with map := m.map.refuse }) := by
  simp only [allocSector, eval, FreeMap.alloc_of_supply_nil h]

theorem eval_allocSector_of_cons {m : Medium} {s : UInt32} {rest : List UInt32}
    (hw : m.map.bitmap.Within m.size) (h : m.map.supply = s :: rest) :
    allocSector.eval m = .ok (some s, { m with map := m.map.grant s }) := by
  simp only [allocSector, eval, FreeMap.alloc_of_supply_cons h _ hw]

theorem eval_releaseSector {m : Medium} {s : UInt32}
    (h : m.map.bitmap.used? s.toNat = some true) :
    (releaseSector s).eval m = .ok ((), { m with map := m.map.takeBack s }) := by
  simp only [releaseSector, eval, FreeMap.release_of_used h]

end Script

namespace Engine

variable {α : Type}

/-- The medium that an engine shows. -/
def medium (e : Engine RamDisk) : Medium := ⟨e.store.size, e.store.content, e.map⟩

theorem medium_of_content {e : Engine RamDisk} {c : Cached RamDisk} {s : UInt32} {data : Sector}
    (hsize : c.size = e.store.size)
    (hcontent : c.content = Function.update e.store.content s data) :
    medium ⟨c, e.map⟩ = e.medium.put s data := by
  simp only [medium, Medium.put, hsize, hcontent]

theorem onStore_of_ok {m : EStateM Fault (Cached RamDisk) α} {e : Engine RamDisk} {a : α}
    {c : Cached RamDisk} (h : m e.store = .ok a c) : onStore m e = .ok a ⟨c, e.map⟩ := by
  simp only [onStore, h]

theorem onStore_of_error {m : EStateM Fault (Cached RamDisk) α} {e : Engine RamDisk} {f : Fault}
    {c : Cached RamDisk} (h : m e.store = .error f c) : onStore m e = .error f ⟨c, e.map⟩ := by
  simp only [onStore, h]

/-- What an engine does is what a medium does. A medium faults wherever a sector is missing, while
an engine that writes such a sector notices when it is written back. -/
def Follows : Except Fault (α × Medium) → EStateM.Result Fault (Engine RamDisk) α → Prop
  | .ok (a, m), .ok b e => b = a ∧ e.store.Coherent ∧ e.medium = m
  | .ok _, .error _ _ => False
  | .error f, .ok _ _ => f = .outOfBounds
  | .error f, .error g _ => f = .outOfBounds ∨ g = f

theorem follows_outOfBounds (r : EStateM.Result Fault (Engine RamDisk) α) :
    Follows (.error .outOfBounds) r := by
  cases r with
  | ok => rfl
  | error => exact Or.inl rfl

theorem follows_run {p : Script α} {e : Engine RamDisk} (hc : e.store.Coherent) :
    Follows (p.eval e.medium) (run p e) := by
  induction p generalizing e with
  | done a => exact ⟨rfl, hc, rfl⟩
  | fail f => exact Or.inr rfl
  | fetch s next ih =>
    simp only [Script.eval]
    split
    · rename_i hs
      obtain ⟨c, hperform, hc', hsize, hcontent⟩ :=
        Cached.perform_of_body_ok hc hs Access.honest_fetch rfl
      rw [Function.update_eq_self] at hcontent
      change Follows _ ((onStore _ >>= fun d => run (next d)) e)
      rw [bind_of_ok (onStore_of_ok hperform)]
      have hmedium : medium ⟨c, e.map⟩ = e.medium := by
        simp only [medium, hsize, hcontent]
      have hnext := ih (e.store.content s) (e := ⟨c, e.map⟩) hc'
      rwa [hmedium] at hnext
    · exact follows_outOfBounds _
  | put s data next ih =>
    simp only [Script.eval]
    split
    · rename_i hs
      obtain ⟨c, hperform, hc', hsize, hcontent⟩ :=
        Cached.perform_of_body_ok hc hs (Access.honest_put data) rfl
      change Follows _ ((onStore _ >>= fun _ => run next) e)
      rw [bind_of_ok (onStore_of_ok hperform), ← medium_of_content hsize hcontent]
      exact ih (e := ⟨c, e.map⟩) hc'
    · exact follows_outOfBounds _
  | update s f next ih =>
    simp only [Script.eval]
    split
    · rename_i hs
      change Follows _ ((onStore _ >>= fun _ => run next) e)
      split
      · rename_i data hf
        have hbody := Access.body_update_of_ok (s := e.store.content s) hf
        obtain ⟨c, hperform, hc', hsize, hcontent⟩ :=
          Cached.perform_of_body_ok hc hs (Access.honest_update f) hbody
        rw [bind_of_ok (onStore_of_ok hperform), ← medium_of_content hsize hcontent]
        exact ih (e := ⟨c, e.map⟩) hc'
      · rename_i g hf
        have hbody := Access.body_update_of_error (s := e.store.content s) hf
        obtain ⟨c, hperform, _⟩ :=
          Cached.perform_of_body_error hc hs (Access.honest_update f) hbody
        rw [bind_of_error (onStore_of_error hperform)]
        exact Or.inr rfl
    · exact follows_outOfBounds _
  | alloc next ih => exact ih _ (e := ⟨e.store, (e.map.alloc 1).2⟩) hc
  | release s next ih =>
    simp only [Script.eval]
    change Follows _ ((release s 1 >>= fun _ => run next) e)
    split
    · rename_i map hmap
      have hrelease : release s 1 e = .ok () ⟨e.store, map⟩ := by
        simp only [release, show e.map.release s 1 = .ok map from hmap]
      rw [bind_of_ok hrelease]
      exact ih (e := ⟨e.store, map⟩) hc
    · rename_i g hmap
      have hrelease : release s 1 e = .error g e := by
        simp only [release, show e.map.release s 1 = .error g from hmap]
      rw [bind_of_error hrelease]
      exact Or.inr rfl

/-- An engine carries out a script as its medium does, and is coherent again. -/
theorem run_of_eval_ok {p : Script α} {e : Engine RamDisk} (hc : e.store.Coherent) {a : α}
    {m : Medium} (h : p.eval e.medium = .ok (a, m)) :
    ∃ e', run p e = .ok a e' ∧ e'.store.Coherent ∧ e'.medium = m := by
  have hfollows := follows_run (p := p) hc
  rw [h] at hfollows
  cases hrun : run p e with
  | ok b e' =>
    rw [hrun] at hfollows
    obtain ⟨rfl, hc', hm⟩ := hfollows
    exact ⟨e', rfl, hc', hm⟩
  | error f e' =>
    rw [hrun] at hfollows
    exact False.elim hfollows

/-- What a script answers on an engine. -/
def answer (e : Engine RamDisk) (p : Script α) : Except Fault α :=
  match run p e with
  | .ok a _ => .ok a
  | .error f _ => .error f

theorem answer_of_eval_ok {p : Script α} {e : Engine RamDisk} (hc : e.store.Coherent) {a : α}
    {m : Medium} (h : p.eval e.medium = .ok (a, m)) : e.answer p = .ok a := by
  obtain ⟨e', hrun, _⟩ := run_of_eval_ok hc h
  rw [answer, hrun]

/-- A script that fails on the medium for another reason than a missing sector fails on the engine
for that reason. -/
theorem run_of_eval_error {p : Script α} {e : Engine RamDisk} (hc : e.store.Coherent) {f : Fault}
    (hf : f ≠ .outOfBounds) (h : p.eval e.medium = .error f) : ∃ e', run p e = .error f e' := by
  have hfollows := follows_run (p := p) hc
  rw [h] at hfollows
  cases hrun : run p e with
  | ok b e' =>
    rw [hrun] at hfollows
    exact absurd hfollows hf
  | error g e' =>
    rw [hrun] at hfollows
    exact ⟨e', by rw [hfollows.resolve_left hf]⟩

end Engine

end SectorVolume
