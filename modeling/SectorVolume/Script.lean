import SectorVolume.Cached
import SectorVolume.FreeMap

/-!
What operations on files are made of. A script is a sequence of requests for sectors and for
space, each of which may depend on the answers to those before it; it knows nothing of slots or
devices. An engine carries scripts out on a cached device and a free map.
-/

namespace SectorVolume

inductive Script (α : Type) where
  | done (a : α)
  | fail (fault : Fault)
  /-- Reads a whole sector. -/
  | fetch (sector : UInt32) (next : Sector → Script α)
  /-- Replaces a whole sector. -/
  | put (sector : UInt32) (data : Sector) (next : Script α)
  /-- Changes a sector, given its old bytes. -/
  | update (sector : UInt32) (f : Sector → Except Fault Sector) (next : Script α)
  /-- Takes one free sector, if there is one. -/
  | alloc (next : Option UInt32 → Script α)
  /-- Returns one sector. -/
  | release (sector : UInt32) (next : Script α)

namespace Script

variable {α β γ : Type}

def bind : Script α → (α → Script β) → Script β
  | done a, k => k a
  | fail f, _ => fail f
  | fetch s next, k => fetch s fun d => (next d).bind k
  | put s d next, k => put s d (next.bind k)
  | update s f next, k => update s f (next.bind k)
  | alloc next, k => alloc fun r => (next r).bind k
  | release s next, k => release s (next.bind k)

instance : Monad Script where
  pure := done
  bind := bind

theorem bind_done (p : Script α) : p.bind done = p := by
  induction p with
  | done => rfl
  | fail => rfl
  | fetch s next ih => simp only [bind, ih]
  | put s d next ih => simp only [bind, ih]
  | update s f next ih => simp only [bind, ih]
  | alloc next ih => simp only [bind, ih]
  | release s next ih => simp only [bind, ih]

theorem bind_bind (p : Script α) (k : α → Script β) (l : β → Script γ) :
    (p.bind k).bind l = p.bind fun a => (k a).bind l := by
  induction p with
  | done => rfl
  | fail => rfl
  | fetch s next ih => simp only [bind, ih]
  | put s d next ih => simp only [bind, ih]
  | update s f next ih => simp only [bind, ih]
  | alloc next ih => simp only [bind, ih]
  | release s next ih => simp only [bind, ih]

instance : LawfulMonad Script :=
  LawfulMonad.mk' Script bind_done (fun _ _ => rfl) bind_bind

def ofExcept : Except Fault α → Script α
  | .ok a => done a
  | .error f => fail f

end Script

def fetchSector (sector : UInt32) : Script Sector := .fetch sector .done

def putSector (sector : UInt32) (data : Sector) : Script Unit := .put sector data (.done ())

def updateSector (sector : UInt32) (f : Sector → Except Fault Sector) : Script Unit :=
  .update sector f (.done ())

def allocSector : Script (Option UInt32) := .alloc .done

def releaseSector (sector : UInt32) : Script Unit := .release sector (.done ())

structure Engine (D : Type) where
  store : Cached D
  map : FreeMap

namespace Engine

variable {D : Type} {α : Type}

def onStore (m : EStateM Fault (Cached D) α) : EStateM Fault (Engine D) α := fun ⟨store, map⟩ =>
  match m store with
  | .ok a store => .ok a ⟨store, map⟩
  | .error f store => .error f ⟨store, map⟩

def onMap (m : EStateM Fault FreeMap α) : EStateM Fault (Engine D) α := fun ⟨store, map⟩ =>
  match m map with
  | .ok a map => .ok a ⟨store, map⟩
  | .error f map => .error f ⟨store, map⟩

def alloc (count : Nat) : EStateM Fault (Engine D) (Option UInt32) := fun ⟨store, map⟩ =>
  let (r, map) := map.alloc count
  .ok r ⟨store, map⟩

/-- Returns sectors; on a fault the map is left alone. -/
def release (sector : UInt32) (count : Nat) : EStateM Fault (Engine D) Unit := fun ⟨store, map⟩ =>
  match map.release sector count with
  | .ok map => .ok () ⟨store, map⟩
  | .error f => .error f ⟨store, map⟩

variable [BlockDevice D]

/-- Carries out a script. -/
def run : Script α → EStateM Fault (Engine D) α
  | .done a => pure a
  | .fail f => throw f
  | .fetch s next => do
    let d ← onStore (Cached.perform s Access.fetch)
    run (next d)
  | .put s d next => do
    onStore (Cached.perform s (Access.put d))
    run next
  | .update s f next => do
    onStore (Cached.perform s (Access.update f))
    run next
  | .alloc next => do
    let r ← alloc 1
    run (next r)
  | .release s next => do
    release s 1
    run next

theorem run_bind {β : Type} (p : Script α) (k : α → Script β) :
    run (D := D) (p >>= k) = run p >>= fun a => run (k a) := by
  induction p with
  | done => rfl
  | fail => rfl
  | fetch s next ih =>
    change (onStore _ >>= fun d => run (next d >>= k)) =
      (onStore _ >>= fun d => run (next d)) >>= _
    simp only [ih, bind_assoc]
  | put s d next ih =>
    change (onStore _ >>= fun _ => run (next >>= k)) = (onStore _ >>= fun _ => run next) >>= _
    simp only [ih, bind_assoc]
  | update s f next ih =>
    change (onStore _ >>= fun _ => run (next >>= k)) = (onStore _ >>= fun _ => run next) >>= _
    simp only [ih, bind_assoc]
  | alloc next ih =>
    change (alloc 1 >>= fun r => run (next r >>= k)) = (alloc 1 >>= fun r => run (next r)) >>= _
    simp only [ih, bind_assoc]
  | release s next ih =>
    change (release s 1 >>= fun _ => run (next >>= k)) = (release s 1 >>= fun _ => run next) >>= _
    simp only [ih, bind_assoc]

end Engine

end SectorVolume
