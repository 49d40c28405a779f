import SectorVolume.Proofs.Session.Tallies
import SectorVolume.Proofs.Sharing.Operations

/-!
A session whose handles hold their entries answers every step as the one whose handles look their
entries up, and shows the same disk, cache, registry and handles after it. So the two agree on
runs of any length, from any session without open files.
-/

namespace SectorVolume

open OpenFiles

/-- What is told of the state at the end is told of another one. -/
def Transcript.map {σ τ : Type} (f : σ → τ) (t : Transcript σ) : Transcript τ :=
  ⟨t.answers, t.final.map f⟩

namespace SharedSession

variable {α β α' β' : Type} {t t' : SharedSession} {extra : List FileHandle} {k : Nat}
  {h : FileHandle}

/-- The entries count the handles that are kept, and some more. -/
structure Sound (t : SharedSession) (extra : List FileHandle) : Prop where
  sorted : t.handles.Sorted
  shares : t.files.Shares (extra ++ t.handles.values)

theorem sound_ofSession (s : Session) : (ofSession s).Sound [] :=
  ⟨Table.sorted_empty, .empty .empty⟩

theorem get?_plain (t : SharedSession) (k : Nat) :
    t.plain.handles.get? k = (t.handles.get? k).map (FileHandle.plain t.files) :=
  Table.get?_map ..

/-- The handles show the same sectors when there are more entries. -/
theorem Sound.map_plain (ht : t.Sound extra) {r : OpenFiles} (hext : t.files.Extends r) :
    t.handles.map (FileHandle.plain r) = t.handles.map (FileHandle.plain t.files) := by
  refine Table.map_congr fun e he => hext.plain_eq (ht.shares.lt_of_mem ?_)
  exact List.mem_append_right _ (List.mem_map_of_mem he)

/-- Both computations, the second on the plain session, end with the same fault or with sessions
that correspond again, and with results as `Q` says. -/
def Tracks (t : SharedSession) (m : SharedSessionM α) (n : SessionM β)
    (Q : α → SharedSession → β → Prop) : Prop :=
  Alike (fun a t' b s' => s' = t'.plain ∧ Q a t' b) (m t) (n t.plain)

section Tracks

variable {Q : α → SharedSession → β → Prop}

theorem tracks_pure {a : α} {b : β} (hQ : Q a t b) : Tracks t (pure a) (pure b) Q :=
  .ok ⟨rfl, hQ⟩

theorem tracks_get : Tracks t (get : SharedSessionM SharedSession) (get : SessionM Session)
    fun t₀ t' s₀ => t₀ = t ∧ t' = t ∧ s₀ = t.plain :=
  .ok ⟨rfl, rfl, rfl, rfl⟩

theorem Tracks.bind {m : SharedSessionM α} {n : SessionM β} {l : α → SharedSessionM α'}
    {g : β → SessionM β'} {R : α' → SharedSession → β' → Prop} (hm : Tracks t m n Q)
    (hl : ∀ a t' b, Q a t' b → Tracks t' (l a) (g b) R) : Tracks t (m >>= l) (n >>= g) R := by
  refine Alike.bind hm ?_
  rintro a t' b _ ⟨rfl, hQ⟩
  exact hl a t' b hQ

theorem tracks_shared (ht : t.Sound extra) {o : SharedM α} {v : VolumeM β}
    {Q : α → OpenFiles → β → Prop} (hov : t.files.Couples o v Q) :
    Tracks t (shared o) (Session.volume v) fun a t' b =>
      t'.handles = t.handles ∧ t.files.Extends t'.files ∧ Q a t'.files b := by
  have hruns :
      Alike _ (Engine.run (o t.files) t.engine) (Engine.run (v t.files.plain) t.engine) :=
    hov t.engine
  simp only [Tracks, shared, Session.volume, plain]
  generalize Engine.run (o t.files) t.engine = x at hruns ⊢
  generalize Engine.run (v t.files.plain) t.engine = y at hruns ⊢
  cases hruns with
  | error f e e' => exact .error f _ _
  | @ok x e y e' hok =>
    obtain ⟨a, r⟩ := x
    obtain ⟨b, g⟩ := y
    obtain ⟨rfl, rfl, hext, hQ⟩ := hok
    refine .ok ⟨?_, rfl, hext, hQ⟩
    rw [ht.map_plain hext]

theorem tracks_aside {m : SessionM α} (hm : Session.Aloof m) :
    Tracks t (aside m) m fun a t' b =>
      b = a ∧ t'.files = t.files ∧ t'.handles = t.handles := by
  rw [Tracks, aside]
  cases hrun : m t.plain with
  | error f s => exact .error f _ _
  | ok a s =>
    obtain ⟨hregistry, hhandles⟩ := hm _ _ _ hrun
    obtain ⟨engine, foreign, registry, handles, held⟩ := s
    refine .ok ⟨?_, rfl, rfl, rfl⟩
    subst hregistry hhandles
    rfl

/-- Keeping a handle under a number. -/
theorem tracks_insert (hsorted : t.handles.Sorted) (k : Nat) (h : FileHandle) :
    Tracks t (modify fun t => { t with handles := t.handles.insert k h })
      (modify fun s => { s with handles := s.handles.insert k (h.plain t.files) })
      fun _ t' _ => t' = { t with handles := t.handles.insert k h } :=
  .ok ⟨congrArg (Session.mk _ _ _ · _) (hsorted.map_insert k h).symm, rfl⟩

theorem tracks_erase (k : Nat) :
    Tracks t (modify fun t => { t with handles := t.handles.erase k })
      (modify fun s => { s with handles := s.handles.erase k })
      fun _ t' _ => t' = { t with handles := t.handles.erase k } :=
  .ok ⟨congrArg (Session.mk _ _ _ · _) (Table.map_erase t.handles k).symm, rfl⟩

end Tracks

/-- One of the handles is closed, whichever number it has or had. -/
theorem tracks_close (ht : t.Sound [h]) :
    Tracks t (shared h.close) (Session.volume (h.plain t.files).close) fun _ t' _ =>
      t'.Sound [] ∧ t'.handles = t.handles ∧ t.files.Extends t'.files := by
  refine Alike.mono (tracks_shared ht (couples_close ht.shares)) ?_
  rintro _ t' _ _ ⟨hplain, hhandles, hext, hshares⟩
  refine ⟨hplain, ⟨hhandles ▸ ht.sorted, ?_⟩, hhandles, hext⟩
  rw [hhandles]
  exact hshares

theorem tracks_closeHandle (ht : t.Sound []) (hk : t.handles.get? k = some h) :
    Tracks t (closeHandle k h) (Session.closeHandle k (h.plain t.files)) fun _ t' _ =>
      t'.Sound [] ∧ t'.handles = t.handles.erase k ∧ t.files.Extends t'.files := by
  refine (tracks_erase k).bind ?_
  rintro _ _ _ rfl
  exact tracks_close ⟨ht.sorted.erase k, ht.shares.perm (ht.sorted.perm_values_erase hk)⟩

theorem tracks_keep (ht : t.Sound [h]) (k : Nat) :
    Tracks t (keep k h) (Session.keep k (h.plain t.files)) fun _ t' _ =>
      t'.Sound [] ∧ t.files.Extends t'.files := by
  refine tracks_get.bind ?_
  rintro _ t _ ⟨rfl, rfl, rfl⟩
  refine (tracks_insert ht.sorted k h).bind ?_
  rintro _ _ _ rfl
  rw [get?_plain]
  cases hk : t.handles.get? k with
  | none =>
    have hperm := ht.sorted.perm_values_insert_of_none hk h
    exact tracks_pure ⟨⟨ht.sorted.insert k h, ht.shares.perm hperm⟩, .refl _⟩
  | some old =>
    have hperm := ht.sorted.perm_values_replace hk h
    refine Alike.mono (tracks_close (t := { t with handles := t.handles.insert k h })
      ⟨ht.sorted.insert k h, ht.shares.perm hperm⟩) ?_
    rintro _ t' _ _ ⟨hplain, hsound, -, hext⟩
    exact ⟨hplain, hsound, hext⟩

/-- Closing the handles one after the other, as they were named before the first was closed. -/
theorem tracks_closeAll {entries : List (Nat × FileHandle)} {r : OpenFiles} (ht : t.Sound [])
    (hentries : t.handles.entries = entries) (hext : r.Extends t.files)
    (hlt : ∀ e ∈ entries, e.2.place < r.entries.length) :
    Tracks t (entries.forM fun (number, h) => closeHandle number h)
      ((entries.map fun e => (e.1, e.2.plain r)).forM fun (number, h) =>
        Session.closeHandle number h)
      fun _ t' _ => t'.Sound [] ∧ t'.handles = Table.empty := by
  induction entries generalizing t with
  | nil => exact tracks_pure ⟨ht, congrArg Table.mk hentries⟩
  | cons e rest ih =>
    obtain ⟨k, h⟩ := e
    have htable : t.handles = ⟨(k, h) :: rest⟩ := by rw [← hentries]
    have hk : t.handles.get? k = some h := by
      rw [htable]
      simp [Table.get?]
    have hrest : t.handles.erase k = ⟨rest⟩ := by
      have hsorted := ht.sorted
      rw [htable] at hsorted ⊢
      exact hsorted.erase_head
    have hname : h.plain r = h.plain t.files := (hext.plain_eq (hlt _ List.mem_cons_self)).symm
    have hclose := tracks_closeHandle ht hk
    rw [← hname] at hclose
    refine Tracks.bind (l := fun _ => rest.forM fun (number, h) => closeHandle number h)
      (g := fun _ => (rest.map fun e => (e.1, e.2.plain r)).forM fun (number, h) =>
        Session.closeHandle number h) hclose ?_
    rintro _ t₁ _ ⟨ht₁, hhandles, hext₁⟩
    refine ih ht₁ ?_ (hext.trans hext₁) fun e he => hlt e (List.mem_cons_of_mem _ he)
    rw [hhandles, hrest]

theorem tracks_unmount (ht : t.Sound []) :
    Tracks t unmount Session.unmount fun _ t' _ => t'.handles = Table.empty := by
  refine tracks_get.bind ?_
  rintro _ t _ ⟨rfl, rfl, rfl⟩
  refine (tracks_closeAll ht rfl (.refl _) fun e he =>
    ht.shares.lt_of_mem (List.mem_map_of_mem he)).bind ?_
  rintro _ t₁ _ ⟨-, hempty⟩
  refine Alike.mono (tracks_aside (Session.Aloof.onEngine _)) ?_
  rintro _ t₂ _ _ ⟨hplain, -, -, hhandles⟩
  exact ⟨hplain, hhandles.trans hempty⟩

theorem tracks_mount (hempty : t.handles = Table.empty) (capacity : Nat) :
    Tracks t (mount capacity) (Session.mount capacity) fun _ t' _ => t'.Sound [] := by
  rw [mount, Session.mount]
  cases Cache.ofCapacity capacity with
  | error f => exact .error f _ _
  | ok cache =>
    obtain ⟨engine, foreign, files, handles, held⟩ := t
    subst hempty
    exact .ok ⟨rfl, Table.sorted_empty, .empty files⟩

/-- What the answer to a step is, and that the next one may follow. -/
def Answers (a : Answer) (t : SharedSession) (b : Answer) : Prop := b = a ∧ t.Sound []

theorem tracks_answer {m : SharedSessionM α} {n : SessionM β} {Q : α → SharedSession → β → Prop}
    {f : α → Answer} {g : β → Answer} (hm : Tracks t m n Q)
    (hQ : ∀ a t' b, Q a t' b → g b = f a ∧ t'.Sound []) :
    Tracks t (m >>= fun a => pure (f a)) (n >>= fun b => pure (g b)) Answers :=
  hm.bind fun a t' b h => tracks_pure (hQ a t' b h)

theorem Sound.same (ht : t.Sound extra) (hfiles : t'.files = t.files)
    (hhandles : t'.handles = t.handles) : t'.Sound extra := by
  refine ⟨hhandles ▸ ht.sorted, ?_⟩
  rw [hfiles, hhandles]
  exact ht.shares

/-- A question about the entry of a handle. -/
theorem tracks_query (ht : t.Sound []) (hk : t.handles.get? k = some h) (f : OpenEntry → β)
    (g : β → Answer) :
    Tracks t (shared (h.entry >>= fun e => pure (f e)) >>= fun b => pure (g b))
      (Session.volume (VolumeM.entry (h.plain t.files).sector >>= fun e => pure (f e)) >>=
        fun b => pure (g b)) Answers := by
  refine tracks_answer (tracks_shared ht (couples_query ht.shares (Table.mem_values hk) f)) ?_
  rintro b t' _ ⟨hhandles, -, hfiles, rfl⟩
  exact ⟨rfl, ht.same hfiles hhandles⟩

/-- A step that leaves entries and handles alone. -/
theorem tracks_quiet (ht : t.Sound []) {m : SessionM Answer} (hm : Session.Aloof m) :
    Tracks t (aside m) m Answers := by
  refine Alike.mono (tracks_aside hm) ?_
  rintro a t' b _ ⟨hplain, rfl, hfiles, hhandles⟩
  exact ⟨hplain, rfl, ht.same hfiles hhandles⟩

theorem tracks_onInode (ht : t.Sound []) {step : HandleStep} (hstep : step.onInode = true) :
    Tracks t (shared h.onInode >>= fun h => aside (Session.runHandle k h step))
      (Session.runHandle k (h.plain t.files) step) Answers := by
  have hname : shared h.onInode t = .ok (h.plain t.files) t := rfl
  rw [Tracks, bind_of_ok hname]
  exact tracks_quiet ht (Session.Aloof.runHandle k _ hstep)

/-- A handle in place of the one under its number. -/
theorem tracks_replace (ht : t.Sound []) (hk : t.handles.get? k = some h)
    {o : SharedM FileHandle} {v : VolumeM Handle}
    (hov : ∀ hs, t.files.Shares (h :: hs) → t.files.Couples o v fun h' r h'' =>
      r.Shares (h' :: hs) ∧ h'' = h'.plain r) :
    Tracks t
      (shared o >>= fun h =>
        modify (fun t => { t with handles := t.handles.insert k h }) >>= fun _ => pure .done)
      (Session.volume v >>= fun h =>
        modify (fun s => { s with handles := s.handles.insert k h }) >>= fun _ => pure .done)
      Answers := by
  have hperm := ht.sorted.perm_values_erase hk
  refine (tracks_shared ht (hov _ (ht.shares.perm hperm))).bind ?_
  rintro h' t₁ _ ⟨hhandles, -, hshares, rfl⟩
  have hsorted : t₁.handles.Sorted := hhandles ▸ ht.sorted
  have hshares' : t₁.files.Shares ([] ++ (t₁.handles.insert k h').values) := by
    rw [← hhandles] at hshares
    exact hshares.perm (hsorted.perm_values_insert k h').symm
  refine (tracks_insert hsorted k h').bind ?_
  rintro _ _ _ rfl
  exact tracks_pure ⟨rfl, hsorted.insert k h', hshares'⟩

theorem tracks_runHandle (ht : t.Sound []) (hk : t.handles.get? k = some h) (step : HandleStep) :
    Tracks t (runHandle k h step) (Session.runHandle k (h.plain t.files) step) Answers := by
  have hmem : h ∈ [] ++ t.handles.values := Table.mem_values hk
  cases step with
  | close => exact tracks_answer (tracks_closeHandle ht hk) fun _ _ _ h => ⟨rfl, h.1⟩
  | reopen copy =>
    refine (tracks_shared ht (couples_reopen ht.shares hmem)).bind ?_
    rintro new t₁ _ ⟨hhandles, -, hshares, rfl⟩
    have ht₁ : t₁.Sound [new] := ⟨hhandles ▸ ht.sorted, by rw [hhandles]; exact hshares⟩
    refine (tracks_shared ht₁ (couples_query ht₁.shares List.mem_cons_self
      OpenEntry.openers)).bind ?_
    rintro count t₂ _ ⟨hhandles', -, hfiles, rfl⟩
    have ht₂ := ht₁.same hfiles hhandles'
    rw [← hfiles]
    exact tracks_answer (tracks_keep ht₂ copy) fun _ _ _ h => ⟨rfl, h.1⟩
  | remove =>
    refine tracks_answer (tracks_shared ht (couples_remove ht.shares hmem)) ?_
    rintro _ t' _ ⟨hhandles, -, hshares⟩
    exact ⟨rfl, hhandles ▸ ht.sorted, by rw [hhandles]; exact hshares⟩
  | deny => exact tracks_replace ht hk fun hs hr => couples_deny hr
  | allow => exact tracks_replace ht hk fun hs hr => (couples_allow hr).mono fun _ _ _ h => h.2
  | isRemoved => exact tracks_query ht hk OpenEntry.removed Answer.flag
  | isDenied => exact tracks_query ht hk (fun e => decide (0 < e.denials)) Answer.flag
  | openCount => exact tracks_query ht hk OpenEntry.openers Answer.number
  | write offset data =>
    refine tracks_answer (tracks_shared ht (couples_writeAt ht.shares hmem offset data)) ?_
    rintro n t' _ ⟨hhandles, -, hfiles, rfl⟩
    exact ⟨rfl, ht.same hfiles hhandles⟩
  | _ => exact tracks_onInode ht rfl

theorem tracks_open (ht : t.Sound []) (k : Nat) (x : UInt32) :
    Tracks t (run (.open k x)) (Session.run (.open k x)) Answers := by
  refine (tracks_shared ht (couples_open ht.shares x)).bind ?_
  rintro h t₁ _ ⟨hhandles, -, hshares, rfl⟩
  have ht₁ : t₁.Sound [h] := ⟨hhandles ▸ ht.sorted, by rw [hhandles]; exact hshares⟩
  have hlt := ht₁.shares.lt_of_mem (h := h) List.mem_cons_self
  refine (tracks_keep ht₁ k).bind ?_
  rintro _ t₂ _ ⟨ht₂, hext⟩
  rw [← hext.plain_eq hlt]
  exact .ok ⟨rfl, rfl, ht₂⟩

theorem tracks_run (ht : t.Sound []) (step : Step) :
    Tracks t (run step) (Session.run step) Answers := by
  cases step with
  | «open» k x => exact tracks_open ht k x
  | remount capacity =>
    refine (tracks_unmount ht).bind ?_
    rintro _ t₁ _ hempty
    refine (tracks_aside Session.Aloof.summary).bind ?_
    rintro a t₂ _ ⟨rfl, -, hhandles⟩
    exact tracks_answer (tracks_mount (hhandles.trans hempty) capacity) fun _ _ _ h => ⟨rfl, h⟩
  | handle k step =>
    refine tracks_get.bind ?_
    rintro _ t _ ⟨rfl, rfl, rfl⟩
    rw [get?_plain]
    cases hk : t.handles.get? k with
    | none => exact tracks_pure ⟨rfl, ht⟩
    | some h => exact tracks_runHandle ht hk step
  | openInodes => exact .ok ⟨rfl, congrArg Answer.number (Table.size_map _), ht⟩
  | summary => exact tracks_quiet ht Session.Aloof.summary
  | _ => exact tracks_quiet ht (Session.Aloof.run rfl)

/-- Runs of any length: the same answers and, unless both end with the same fault, sessions that
correspond at the end. -/
theorem play_plain (steps : List Step) (ht : t.Sound []) :
    Session.play steps t.plain = (play steps t).map plain ∧
      ∀ t', (play steps t).final = .ok t' → t'.Sound [] := by
  induction steps generalizing t with
  | nil => exact ⟨rfl, fun t' ht' => Except.ok.inj ht' ▸ ht⟩
  | cons step rest ih =>
    have hstep := tracks_run ht step
    rw [Tracks] at hstep
    rw [play, Session.play, Transcript.ofSteps, Transcript.ofSteps]
    generalize run step t = x at hstep ⊢
    generalize Session.run step t.plain = y at hstep ⊢
    cases hstep with
    | error f _ _ => exact ⟨rfl, fun t' ht' => by cases ht'⟩
    | @ok a t' b _ h =>
      obtain ⟨rfl, rfl, ht'⟩ := h
      obtain ⟨hplay, hsound⟩ := ih ht'
      refine ⟨?_, hsound⟩
      change Transcript.mk (b :: (Session.play rest t'.plain).answers)
        (Session.play rest t'.plain).final = _
      rw [hplay]
      rfl

/-- From a session without open files, a run without a fault can be told of handles that hold
their entries. Each of them holds the one that is registered for its sector, and two hold the same
one just where they are on the same sector. -/
theorem exists_play {s₀ s : Session} {steps : List Step} (hregistry : s₀.registry = Table.empty)
    (hhandles : s₀.handles = Table.empty) (hplay : (Session.play steps s₀).final = .ok s) :
    ∃ t, play steps (ofSession s₀) = ⟨(Session.play steps s₀).answers, .ok t⟩ ∧ t.plain = s ∧
      (∀ k h, t.handles.get? k = some h →
        t.files.registered.get? (h.plain t.files).sector = some h.place) ∧
      ∀ k k' h h', t.handles.get? k = some h → t.handles.get? k' = some h' →
        (h.place = h'.place ↔ (h.plain t.files).sector = (h'.plain t.files).sector) := by
  have hstart : (ofSession s₀).plain = s₀ := by
    obtain ⟨engine, foreign, registry, handles, held⟩ := s₀
    subst hregistry hhandles
    rfl
  obtain ⟨hsame, hsound⟩ := play_plain steps (sound_ofSession s₀)
  rw [hstart] at hsame
  have hfinal : (play steps (ofSession s₀)).final.map plain = .ok s := by
    rw [← hplay, hsame]
    rfl
  cases ht : (play steps (ofSession s₀)).final with
  | error f =>
    rw [ht] at hfinal
    cases hfinal
  | ok t =>
    rw [ht] at hfinal
    have hshares := (hsound t ht).shares
    refine ⟨t, ?_, Except.ok.inj hfinal, fun k h hk => ?_, fun k k' h h' hk hk' => ?_⟩
    · rw [hsame, ← ht]
      rfl
    · exact hshares.registered_of_mem (Table.mem_values hk)
    · exact hshares.place_eq_iff (Table.mem_values hk) (Table.mem_values hk')

end SharedSession

end SectorVolume
