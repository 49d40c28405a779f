import SectorVolume.Script
import SectorVolume.Proofs.Cache.Content

/-!
The requests that a script makes of the map, in the order of the ledger. A script is judged by all
the answers it may be given, so what holds of it holds of its runs on any device and behind any
cache, and also of what a run leaves in the ledger that fails on the way.
-/

namespace SectorVolume

open FreeMap

namespace FreeMap

/-- No sector is asked for after one was returned. The newest request comes first. -/
def AsksFirst (made : List Request) : Prop :=
  made.Pairwise fun later earlier => earlier.isReturned = true → later.isReturned = true

theorem asksFirst_nil : AsksFirst [] := List.Pairwise.nil

variable {made : List Request}

theorem AsksFirst.cons_of_none (h : AsksFirst made) (hnone : ∀ q ∈ made, q.isReturned = false)
    (q : Request) : AsksFirst (q :: made) := by
  refine List.pairwise_cons.2 ⟨fun earlier hmem hreturned => ?_, h⟩
  rw [hnone earlier hmem] at hreturned
  exact absurd hreturned (by decide)

theorem AsksFirst.cons_returned (h : AsksFirst made) (s : UInt32) (count : Nat) :
    AsksFirst (.returned s count :: made) :=
  List.pairwise_cons.2 ⟨fun _ _ _ => rfl, h⟩

/-- A request for sectors is entered with its outcome. -/
theorem ledger_alloc (m : FreeMap) (count : Nat) : (m.alloc count).2.ledger =
    ((m.alloc count).1.elim (.refused count) fun s => .granted s count) :: m.ledger := by
  obtain ⟨b, quota, ledger⟩ := m
  cases halloc : b.alloc count with
  | mk found b' =>
    cases quota with
    | none => cases found <;> simp [alloc, halloc]
    | some q =>
      cases q with
      | zero => rfl
      | succ q => cases found <;> simp [alloc, halloc]

theorem ledger_release {m m' : FreeMap} {s : UInt32} {count : Nat}
    (h : m.release s count = .ok m') :
    m'.ledger = .returned s count :: m.ledger := by
  rw [release] at h
  cases hbitmap : m.bitmap.release s count with
  | error f =>
    rw [hbitmap] at h
    cases h
  | ok b =>
    rw [hbitmap] at h
    cases h
    rfl

end FreeMap

namespace Script

variable {α β : Type} {Q : List Request → α → Prop} {R : List Request → β → Prop}
  {made : List Request}

/-- After the requests `made` the script asks for a sector only as long as none was returned, and
where it ends `Q` holds of all requests made up to there and of the answer, whatever the script is
told on the way. -/
inductive Orderly (Q : List Request → α → Prop) : Script α → List Request → Prop
  | done {a : α} {made : List Request} (h : Q made a) : Orderly Q (done a) made
  | fail (f : Fault) (made : List Request) : Orderly Q (fail f) made
  | fetch {s : UInt32} {next : Sector → Script α} {made : List Request}
      (h : ∀ data, Orderly Q (next data) made) : Orderly Q (fetch s next) made
  | put {s : UInt32} {data : Sector} {next : Script α} {made : List Request}
      (h : Orderly Q next made) : Orderly Q (put s data next) made
  | update {s : UInt32} {f : Sector → Except Fault Sector} {next : Script α} {made : List Request}
      (h : Orderly Q next made) : Orderly Q (update s f next) made
  | alloc {next : Option UInt32 → Script α} {made : List Request}
      (hnone : ∀ q ∈ made, q.isReturned = false)
      (hrefused : Orderly Q (next none) (.refused 1 :: made))
      (hgranted : ∀ s, Orderly Q (next (some s)) (.granted s 1 :: made)) :
      Orderly Q (alloc next) made
  | release {s : UInt32} {next : Script α} {made : List Request}
      (h : Orderly Q next (.returned s 1 :: made)) : Orderly Q (release s next) made

theorem Orderly.bind {p : Script α} {k : α → Script β} (hp : p.Orderly Q made)
    (hk : ∀ made a, Q made a → (k a).Orderly R made) : (p >>= k).Orderly R made := by
  change (p.bind k).Orderly R made
  induction hp with
  | done h => exact hk _ _ h
  | fail f made => exact .fail f made
  | fetch _ ih => exact .fetch ih
  | put _ ih => exact .put ih
  | update _ ih => exact .update ih
  | alloc hnone _ _ ihrefused ihgranted => exact .alloc hnone ihrefused ihgranted
  | release _ ih => exact .release ih

end Script

namespace Engine

variable {D α β : Type} {before made : List Request} {Q : List Request → α → Prop}

/-- On an engine that has entered the requests `made` behind those of `before`, the computation
enters further ones in order, also where it fails, and with an answer `Q` holds of all of them and
the answer. -/
def Enters (before : List Request) (Q : List Request → α → Prop) (m : EStateM Fault (Engine D) α)
    (made : List Request) : Prop :=
  ∀ e : Engine D, e.map.ledger = made ++ before → ∃ made',
    (stateAfter m e).map.ledger = made' ++ before ∧ AsksFirst made' ∧
      ∀ a e', m e = .ok a e' → Q made' a

/-- An access to a sector enters nothing. -/
theorem enters_onStore_bind {m : EStateM Fault (Cached D) β} {k : β → EStateM Fault (Engine D) α}
    (hordered : AsksFirst made) (hk : ∀ b, Enters before Q (k b) made) :
    Enters before Q (onStore m >>= k) made := by
  intro e he
  cases hm : m e.store with
  | ok b c =>
    have hstore : onStore m e = .ok b ⟨c, e.map⟩ := by simp only [onStore, hm]
    rw [stateAfter, bind_of_ok hstore]
    exact hk b ⟨c, e.map⟩ he
  | error f c =>
    have hstore : onStore m e = .error f ⟨c, e.map⟩ := by simp only [onStore, hm]
    refine ⟨made, ?_, hordered, fun a e' hrun => ?_⟩
    · rw [stateAfter_of_error (bind_of_error hstore)]
      exact he
    · rw [bind_of_error hstore] at hrun
      cases hrun

variable [BlockDevice D]

/-- An orderly script leaves an orderly ledger on every engine. -/
theorem enters_run {p : Script α} (h : p.Orderly Q made) (hordered : AsksFirst made) :
    Enters (D := D) before Q (run p) made := by
  induction h with
  | done h =>
    refine fun e he => ⟨_, he, hordered, fun b e' hrun => ?_⟩
    cases hrun
    exact h
  | fail f made => exact fun e he => ⟨made, he, hordered, fun b e' hrun => by cases hrun⟩
  | fetch _ ih => exact enters_onStore_bind hordered fun data => ih data hordered
  | put _ ih => exact enters_onStore_bind hordered fun _ => ih hordered
  | update _ ih => exact enters_onStore_bind hordered fun _ => ih hordered
  | @alloc next made hnone _ _ ihrefused ihgranted =>
    intro e he
    have hledger := ledger_alloc e.map 1
    have hrun : run (.alloc next) e = run (next (e.map.alloc 1).1) ⟨e.store, (e.map.alloc 1).2⟩ :=
      rfl
    rw [stateAfter, hrun]
    rw [he] at hledger
    cases hfound : (e.map.alloc 1).1 with
    | none =>
      rw [hfound] at hledger
      exact ihrefused (hordered.cons_of_none hnone _) ⟨e.store, (e.map.alloc 1).2⟩ hledger
    | some s =>
      rw [hfound] at hledger
      exact ihgranted s (hordered.cons_of_none hnone _) ⟨e.store, (e.map.alloc 1).2⟩ hledger
  | @release s next made _ ih =>
    intro e he
    cases hmap : e.map.release s 1 with
    | error f =>
      have hrelease : release s 1 e = .error f e := by simp only [release, hmap]
      refine ⟨made, ?_, hordered, fun a e' hrun => ?_⟩
      · rw [run, stateAfter_of_error (bind_of_error hrelease), he]
      · rw [run, bind_of_error hrelease] at hrun
        cases hrun
    | ok map =>
      have hrelease : release s 1 e = .ok () ⟨e.store, map⟩ := by simp only [release, hmap]
      rw [run, stateAfter, bind_of_ok hrelease]
      refine ih (hordered.cons_returned s 1) ⟨e.store, map⟩ ?_
      rw [ledger_release hmap, he, List.cons_append]

end Engine

end SectorVolume
