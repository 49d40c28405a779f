import SectorVolume.Proofs.Session.Growth
import SectorVolume.Proofs.Session.Moments
import SectorVolume.Proofs.Sharing.Runs
import Mathlib.Data.List.Induction

/-!
The handles that a user keeps can be told from the steps of a run alone, and the registry tells
nothing else: it has an entry just for the files with handles, with the number of these and of
those that deny writing, and with the mark of removal if it was set since the entry was made. This
holds of runs of any steps whatever, be it on files or behind their backs.
-/

namespace SectorVolume

/-- The handles after a run without a fault. -/
def roll (steps : List Step) : Table Nat Handle := steps.foldl Step.rolls Table.empty

/-- A step of the run has marked the file in sector `x` as removed, and at no moment since was the
file without handles. -/
def MarkedSince (steps : List Step) (x : UInt32) : Prop :=
  ∃ before step after, steps = before ++ step :: after ∧ step.marks (roll before) x = true ∧
    ∀ mid, mid <+: after → openers (roll (before ++ step :: mid)).values x ≠ 0

section Roll

variable {steps : List Step} {step : Step} {x : UInt32}

theorem roll_concat (steps : List Step) (step : Step) :
    roll (steps ++ [step]) = step.rolls (roll steps) := by
  rw [roll, List.foldl_concat]
  rfl

theorem markedSince_concat : MarkedSince (steps ++ [step]) x ↔
    openers (roll (steps ++ [step])).values x ≠ 0 ∧
      (MarkedSince steps x ∨ step.marks (roll steps) x = true) := by
  constructor
  · rintro ⟨before, marking, after, hsplit, hmarks, hopen⟩
    refine ⟨hsplit ▸ hopen after (List.prefix_refl after), ?_⟩
    rcases List.eq_nil_or_concat after with rfl | ⟨after, last, rfl⟩
    · obtain ⟨rfl, hlast⟩ := List.append_inj' hsplit rfl
      rw [List.singleton_inj.1 hlast]
      exact Or.inr hmarks
    · rw [List.concat_eq_append, ← List.cons_append, ← List.append_assoc] at hsplit
      obtain ⟨rfl, -⟩ := List.append_inj' hsplit rfl
      refine Or.inl ⟨before, marking, after, rfl, hmarks, fun mid hmid => hopen mid ?_⟩
      exact hmid.trans (by rw [List.concat_eq_append]; exact List.prefix_append after [last])
  · rintro ⟨hopen, ⟨before, marking, after, rfl, hmarks, hsince⟩ | hmarks⟩
    · refine ⟨before, marking, after ++ [step], by simp, hmarks, fun mid hmid => ?_⟩
      rcases List.prefix_concat_iff.1 hmid with rfl | hmid
      · rw [List.append_assoc] at hopen
        exact hopen
      · exact hsince mid hmid
    · refine ⟨steps, step, [], rfl, hmarks, fun mid hmid => ?_⟩
      rw [List.prefix_nil.1 hmid]
      exact hopen

end Roll

namespace Session

variable {s s' : Session}

/-- What the registry tells after a run. -/
theorem tallies_of_play {steps : List Step} (hregistry : s.registry = Table.empty)
    (hhandles : s.handles = Table.empty) (hplay : (play steps s).final = .ok s') :
    s'.handles = roll steps ∧ s'.handles.Sorted ∧ ∃ removed, s'.Tallies [] removed ∧
      ∀ x, removed x = true ↔ MarkedSince steps x := by
  induction steps using List.reverseRecOn generalizing s' with
  | nil =>
    obtain rfl := Except.ok.inj hplay
    refine ⟨hhandles, hhandles ▸ Table.sorted_empty, fun _ => false, ?_, fun x => ?_⟩
    · rw [Tallies, hregistry, hhandles]
      exact Registry.Counts.empty _
    · simp [MarkedSince]
  | append_singleton steps step ih =>
    obtain ⟨mid, a, hmid, hrun⟩ := Transcript.exists_last_of_ok hplay
    obtain ⟨hroll, hsorted, removed, htallies, hmarked⟩ := ih hmid
    have hfresh : ∀ x, openers mid.handles.values x = 0 → removed x = false := by
      intro x hnone
      by_contra hremoved
      obtain ⟨before, step, after, rfl, -, hopen⟩ := (hmarked x).1 (by simpa using hremoved)
      rw [hroll] at hnone
      exact hopen after (List.prefix_refl after) hnone
    obtain ⟨hrolls, htallies'⟩ := tallies_of_run hsorted htallies hfresh hrun
    have hroll' : s'.handles = roll (steps ++ [step]) := by
      rw [roll_concat, hrolls, hroll]
    refine ⟨hroll', hrolls ▸ sorted_rolls hsorted step, fun x =>
      decide (openers s'.handles.values x ≠ 0) && (step.marks mid.handles x || removed x),
      htallies'.congr_removed fun x hx => ?_, fun x => ?_⟩
    · have hopen : openers s'.handles.values x ≠ 0 := hx
      simp only [decide_eq_true hopen, Bool.true_and]
    · rw [Bool.and_eq_true, decide_eq_true_eq, Bool.or_eq_true, markedSince_concat, hmarked x,
        ← hroll', ← hroll, or_comm]

theorem empty_of_startOn {disk : RamDisk} {mapped reserved capacity others : Nat}
    (hs : startOn disk mapped reserved capacity others = .ok s) :
    s.registry = Table.empty ∧ s.handles = Table.empty := by
  rw [startOn, start] at hs
  cases hmap : (FreeMap.ofBitmap (Bitmap.blank mapped)).reserve 0 reserved with
  | error f =>
    rw [hmap] at hs
    cases hs
  | ok map =>
    rw [hmap] at hs
    cases hcache : Cache.ofCapacity capacity with
    | error f =>
      rw [hcache] at hs
      cases hs
    | ok cache =>
      rw [hcache] at hs
      cases hs
      exact ⟨rfl, rfl⟩

/-- The handles after a run that goes on. -/
theorem handles_of_play {disk : RamDisk} {mapped reserved capacity others : Nat} {s₀ : Session}
    {history later : List Step} (hstart : startOn disk mapped reserved capacity others = .ok s₀)
    (hmid : (play history s₀).final = .ok s) (hlast : (play later s).final = .ok s') :
    s'.handles = roll (history ++ later) := by
  obtain ⟨hregistry, hhandles⟩ := empty_of_startOn hstart
  refine (tallies_of_play hregistry hhandles ?_).1
  rw [play, Transcript.ofSteps_append_of_ok hmid]
  exact hlast

/-- After every run without a fault the registry has one entry for all handles on a file, and none
for a file without handles. The entry counts the handles and the denials that were not withdrawn,
of which there are never more than handles, and has the mark of removal just where a step set it
since the entry was made. A handle that could be closed is counted, and so is a denial that could
be withdrawn.

The run can also be told of handles that hold their entries and are not looked up: with the same
answers it ends in the same session, every handle holds the entry that is registered for its
sector, and two hold the same one just where they are on the same sector. -/
theorem registry_tells_the_handles {disk : RamDisk} {mapped reserved capacity others : Nat}
    {s₀ s : Session} {steps : List Step}
    (hstart : startOn disk mapped reserved capacity others = .ok s₀)
    (hplay : (play steps s₀).final = .ok s) :
    s.handles = roll steps ∧
      (∀ x, (s.registry.get? x).isSome = true ↔
        ∃ k h, (roll steps).get? k = some h ∧ h.sector = x) ∧
      (∀ x e, s.registry.get? x = some e →
        e.openers = openers (roll steps).values x ∧ e.denials = denials (roll steps).values x ∧
        e.denials ≤ e.openers ∧ (e.removed = true ↔ MarkedSince steps x)) ∧
      (∀ k h, (roll steps).get? k = some h → ∃ e, s.registry.get? h.sector = some e ∧
        0 < e.openers ∧ (h.denies = true → 0 < e.denials) ∧
        (h.denies = false → e.denials < e.openers) ∧
        run (.handle k .openCount) s = .ok (.number e.openers) s ∧
        run (.handle k .isDenied) s = .ok (.flag (decide (0 < e.denials))) s ∧
        run (.handle k .isRemoved) s = .ok (.flag e.removed) s) ∧
      ∃ t, SharedSession.play steps (.ofSession s₀) = ⟨(play steps s₀).answers, .ok t⟩ ∧
        t.plain = s ∧
        (∀ k h, t.handles.get? k = some h →
          t.files.registered.get? (h.plain t.files).sector = some h.place) ∧
        ∀ k k' h h', t.handles.get? k = some h → t.handles.get? k' = some h' →
          (h.place = h'.place ↔ (h.plain t.files).sector = (h'.plain t.files).sector) := by
  obtain ⟨hregistry, hhandles⟩ := empty_of_startOn hstart
  obtain ⟨hroll, hsorted, removed, htallies, hmarked⟩ := tallies_of_play hregistry hhandles hplay
  have hcounts : s.registry.Counts s.handles.values removed := htallies
  have hlive : ∀ k h, s.handles.get? k = some h → openers s.handles.values h.sector ≠ 0 :=
    fun k h hk => openers_ne_zero (Table.mem_values hk)
  rw [← hroll]
  refine ⟨rfl, fun x => ?_, fun x e he => ?_, fun k h hk => ?_,
    SharedSession.exists_play hregistry hhandles hplay⟩
  · rw [hcounts x]
    constructor
    · intro hsome
      refine exists_of_openers_ne_zero hsorted fun hnone => ?_
      rw [if_pos hnone] at hsome
      cases hsome
    · rintro ⟨k, h, hk, rfl⟩
      rw [if_neg (hlive k h hk)]
      rfl
  · rw [hcounts x] at he
    split at he
    · cases he
    · obtain rfl := Option.some.inj he
      exact ⟨rfl, rfl, denials_le_openers _ _, hmarked x⟩
  · have hentry := hcounts h.sector
    rw [if_neg (hlive k h hk)] at hentry
    have hget : s.registry.entry h.sector = ⟨_, _, _⟩ := hcounts.entry_of_ne_zero (hlive k h hk)
    have hperm := hsorted.perm_values_erase hk
    have hle := denials_le_openers (s.handles.erase k).values h.sector
    rw [openers_perm hperm, denials_perm hperm, openers_cons, denials_cons,
      if_pos rfl] at hget hentry
    refine ⟨_, hentry, by simp, fun hdenies => ?_, fun hdenies => ?_, ?_⟩
    · simp [hdenies]
    · simp [hdenies]
      omega
    · rw [← hget]
      refine ⟨?_, ?_, ?_⟩ <;> rw [run_handle hk] <;> rfl

/-- A file is opened, opened again, denied through the second handle and marked through the first,
which is then closed. -/
def sharedRun : List Step :=
  [.make 3 false, .open 0 1, .handle 0 (.reopen 1), .handle 1 .deny, .handle 0 .remove,
    .handle 0 .close]

/-- The mark was set through a handle that is gone, but the other one has kept the entry. -/
theorem sharedRun_keeps_the_mark :
    ∃ s₀ s, startOn usedDisk 8 1 1 0 = .ok s₀ ∧ (play sharedRun s₀).final = .ok s ∧
      s.registry.get? 1 = some ⟨1, true, 1⟩ ∧ openers (roll sharedRun).values 1 = 1 ∧
      denials (roll sharedRun).values 1 = 1 ∧ MarkedSince sharedRun 1 := by
  have heval : (startOn usedDisk 8 1 1 0).toOption.bind (fun s₀ =>
      (play sharedRun s₀).final.toOption.map fun s => s.registry.get? 1) =
      some (some ⟨1, true, 1⟩) := by
    decide +kernel
  cases hstart : startOn usedDisk 8 1 1 0 with
  | error f => simp [Except.toOption, hstart] at heval
  | ok s₀ =>
    cases hlast : (play sharedRun s₀).final with
    | error f => simp [Except.toOption, hstart, hlast] at heval
    | ok s =>
      have hentry : s.registry.get? 1 = some ⟨1, true, 1⟩ := by
        simpa [Except.toOption, hstart, hlast] using heval
      obtain ⟨-, -, htold, -⟩ := registry_tells_the_handles hstart hlast
      obtain ⟨hopeners, hdenials, -, hmarked⟩ := htold 1 _ hentry
      exact ⟨s₀, s, rfl, hlast, hentry, hopeners.symm, hdenials.symm, hmarked.1 rfl⟩

end Session

end SectorVolume
