import SectorVolume.Proofs.Session.Frames
import SectorVolume.Proofs.Session.Moments
import SectorVolume.Proofs.Session.Tallies

/-!
Files that nobody has open. Whatever is done to other files, such a file stays what it is, and
whoever opens it again finds the length and the bytes that it had.
-/

namespace SectorVolume

namespace Reference

variable {r r' : Reference} {x y : UInt32} {f : File}

theorem get?_reclaim_of_ne (r : Reference) (hne : x ≠ y) :
    (r.reclaim y).files.get? x = r.files.get? x := by
  rw [reclaim]
  split
  · rfl
  · split
    · rw [Table.get?_erase, if_neg hne]
    · rfl

theorem get?_resize_of_ne (r : Reference) (hne : x ≠ y) (f : File) (length : Nat) :
    (r.resize y f length).2.files.get? x = r.files.get? x := by
  rw [resize]
  split
  · rfl
  · split
    · rfl
    · rw [Table.get?_insert, if_neg hne]

theorem get?_make_of_ne (r : Reference) (hne : x ≠ y) (length : Nat) (isDir : Bool) :
    (r.make y length isDir).2.files.get? x = r.files.get? x := by
  rw [make, get?_resize_of_ne _ hne, Table.get?_insert, if_neg hne]

theorem get?_write_of_ne (r : Reference) (hne : x ≠ y) (f : File) (offset : Nat)
    (data : Array UInt8) : (r.write y f offset data).2.files.get? x = r.files.get? x := by
  by_cases hidle : (data.isEmpty || decide (0 < denials r.opened y) ||
      decide (wordLimit ≤ offset + data.size)) = true
  · rw [write_of_idle hidle]
  · have hsame := get?_resize_of_ne r hne f (max f.length (offset + data.size))
    rcases hresize : r.resize y f (max f.length (offset + data.size)) with ⟨refusal | _, r'⟩
    · rw [hresize] at hsame
      rw [write_of_refused hidle hresize]
      exact hsame
    · rw [hresize] at hsame
      rw [write_of_resized hidle hresize, Table.get?_insert, if_neg hne]
      exact hsame

section Unopened

variable {k : Nat} {h : Handle}

theorem get?_keep_of_unopened (hr : ∀ h ∈ r.opened, h.sector ≠ x) :
    (r.keep k h).files.get? x = r.files.get? x := by
  rw [keep]
  split
  · rfl
  · rename_i old hold
    exact get?_reclaim_of_ne _ (hr old (Session.Shows.mem_opened hold)).symm

theorem get?_closeAll (entries : List (Nat × Handle)) (hr : ∀ e ∈ entries, e.2.sector ≠ x) :
    (entries.foldl (fun r e => r.closeHandle e.1 e.2) r).files.get? x = r.files.get? x := by
  induction entries generalizing r with
  | nil => rfl
  | cons e rest ih =>
    have hfirst := (hr e List.mem_cons_self).symm
    rw [List.foldl_cons, ih fun e' he' => hr e' (List.mem_cons_of_mem _ he'), closeHandle,
      get?_reclaim_of_ne _ hfirst]

/-- A step through a handle concerns the file of the handle. -/
theorem get?_of_runHandle (hr : ∀ h ∈ r.opened, h.sector ≠ x) (hne : x ≠ h.sector)
    {step : HandleStep} {b : Option Answer} (hrun : r.runHandle k h f step = .ok (b, r')) :
    r'.files.get? x = r.files.get? x := by
  cases step with
  | close =>
    cases hrun
    exact get?_reclaim_of_ne _ hne
  | reopen copy =>
    cases hrun
    exact get?_keep_of_unopened hr
  | remove =>
    cases hrun
    simp only [Table.get?_insert, if_neg hne]
  | addChild =>
    rw [runHandle] at hrun
    split at hrun
    · cases hrun
      simp only [Table.get?_insert, if_neg hne]
    · cases hrun
  | removeChild =>
    rw [runHandle] at hrun
    split at hrun
    · cases hrun
    · cases hrun
      simp only [Table.get?_insert, if_neg hne]
  | deny =>
    rw [runHandle] at hrun
    split at hrun
    · cases hrun
    · cases hrun
      rfl
  | allow =>
    rw [runHandle] at hrun
    split at hrun
    · cases hrun
      rfl
    · cases hrun
  | write offset data =>
    cases hrun
    exact get?_write_of_ne r hne f offset data
  | resize length =>
    cases hrun
    exact get?_resize_of_ne r hne f length
  | _ =>
    cases hrun
    rfl

/-- A step changes nothing about a file that is not open, unless the file is made only now. -/
theorem get?_of_run (hr : ∀ h ∈ r.opened, h.sector ≠ x) {step : Step} {b : Option Answer}
    (hrun : r.run step = some (.ok (b, r')))
    (hname : ∀ length isDir, step = .make length isDir → r.names ≠ x :: r'.names) :
    r'.files.get? x = r.files.get? x := by
  cases step with
  | make length isDir =>
    rw [run] at hrun
    split at hrun
    · cases hrun
      rfl
    · split at hrun
      · cases hrun
      · rename_i y names hnames
        simp only [Option.some.injEq, Except.ok.injEq, Prod.mk.injEq] at hrun
        obtain ⟨-, rfl⟩ := hrun
        have hne : x ≠ y := by
          rintro rfl
          have hrest : (Reference.make { r with names } x length isDir).2.names = names :=
            names_resize ..
          exact hname length isDir rfl (by rw [hrest, hnames])
        exact get?_make_of_ne _ hne length isDir
  | «open» k y =>
    rw [run] at hrun
    split at hrun
    · cases hrun
    · cases hrun
      exact get?_keep_of_unopened hr
  | remount capacity =>
    rw [run] at hrun
    split at hrun
    · cases hrun
    · cases hrun
      exact get?_closeAll _ fun e he => hr e.2 (List.mem_map_of_mem he)
  | handle k step =>
    rw [run] at hrun
    split at hrun
    · cases hrun
      rfl
    · rename_i h hk
      split at hrun
      · cases hrun
      · exact get?_of_runHandle hr (hr h (Session.Shows.mem_opened hk)).symm
          (Option.some.inj hrun)
  | map step =>
    cases step with
    | limit quota =>
      cases hrun
      rfl
    | freeCount =>
      cases hrun
      rfl
    | _ => cases hrun
  | openInodes =>
    cases hrun
    rfl
  | flush =>
    cases hrun
    rfl
  | summary =>
    cases hrun
    rfl
  | _ => cases hrun

end Unopened

end Reference

/-- Only opening a file makes a handle on one that has none. -/
theorem Step.rolls_unopened {t : Table Nat Handle} {x : UInt32} {step : Step}
    (ht : ∀ k h, t.get? k = some h → h.sector ≠ x) (hstep : ∀ k, step ≠ .open k x) :
    ∀ k h, (step.rolls t).get? k = some h → h.sector ≠ x := by
  have hinsert : ∀ {j : Nat} {new : Handle}, new.sector ≠ x →
      ∀ k h, (t.insert j new).get? k = some h → h.sector ≠ x := by
    intro j new hnew k h hk
    rw [Table.get?_insert] at hk
    split at hk
    · obtain rfl := Option.some.inj hk
      exact hnew
    · exact ht k h hk
  cases step with
  | «open» k y =>
    apply hinsert
    rintro rfl
    exact hstep k rfl
  | remount capacity => exact fun k h hk => absurd hk (by simp [rolls])
  | handle j action =>
    rw [rolls]
    split
    · rename_i h₀ hj
      cases action with
      | close =>
        intro k h hk
        rw [HandleStep.rolls, Table.get?_erase] at hk
        split at hk
        · cases hk
        · exact ht k h hk
      | reopen copy => exact hinsert (ht j h₀ hj)
      | deny => exact hinsert (ht j h₀ hj)
      | allow => exact hinsert (ht j h₀ hj)
      | _ => exact ht
    · exact ht
  | _ => exact ht

namespace Session

variable {s s' : Session} {r : Reference} {reserved : Nat} {step : Step} {a : Answer} {x : UInt32}
  {f : File}

/-- Somebody has the file in sector `x` open. -/
def IsOpen (s : Session) (x : UInt32) : Prop := ∃ k h, s.handles.get? k = some h ∧ h.sector = x

namespace Shows

theorem rolls (hs : s.Shows reserved [] r) (hrun : run step s = .ok a s') :
    s'.handles = step.rolls s.handles := by
  have hopened : r.opened = s.handles.values := by
    rw [hs.handles]
    rfl
  have hcounts : s.Tallies [] r.removed := by
    rw [Tallies, ← hopened]
    exact hs.counts
  refine (tallies_of_run (by rw [hs.handles]; exact hs.sorted) hcounts (fun x hx => ?_) hrun).1
  by_contra hremoved
  exact hs.removed_opened x (by simpa using hremoved) (by rwa [List.nil_append, hopened])

theorem isOpen_iff {extra : List Handle} (hs : s.Shows reserved extra r) :
    s.IsOpen x ↔ openers r.opened x ≠ 0 := by
  have hopened : r.opened = s.handles.values := by
    rw [hs.handles]
    rfl
  rw [hopened]
  constructor
  · rintro ⟨k, h, hk, rfl⟩
    exact openers_ne_zero (Table.mem_values hk)
  · exact exists_of_openers_ne_zero (hs.handles ▸ hs.sorted)

theorem forall_opened (hs : s.Shows reserved [] r) (hx : ¬s.IsOpen x) :
    ∀ h ∈ r.opened, h.sector ≠ x := by
  rintro h hmem rfl
  exact hx (hs.isOpen_iff.2 (openers_ne_zero hmem))

/-- A file that nobody has open, after a run that does not open it. -/
theorem unopened_of_play {later : List Step} (hs : s.Shows reserved [] r)
    (hnames : r.names = (play later s).answers.flatMap made)
    (hadmits : Reference.admitsAll later r = true) (hlast : (play later s).final = .ok s')
    (hf : r.files.get? x = some f) (hx : ¬s.IsOpen x) (hlater : ∀ k, Step.open k x ∉ later) :
    ∃ r', s'.Shows reserved [] r' ∧ r'.files.get? x = some f ∧ ¬s'.IsOpen x := by
  induction later generalizing s r with
  | nil =>
    obtain rfl := Except.ok.inj hlast
    exact ⟨r, hs, hf, hx⟩
  | cons step rest ih =>
    cases hrun : run step s with
    | error g s₁ =>
      rw [play_cons_of_error hrun] at hlast
      cases hlast
    | ok a s₁ =>
      obtain ⟨b, r₁, hreference, hmade, hs₁, hnames₁, hadmits₁⟩ := hs.at_next hnames hadmits hrun
      rw [play_cons_of_ok hrun] at hlast
      have hsame := Reference.get?_of_run (hs.forall_opened hx) hreference
        (fun length isDir heq htaken => by
          subst heq
          rw [hmade] at htaken
          have hmem := (hs.spares_of_make hs₁.coherent (by rw [hf]; rfl) hrun).2
          have hcons : x :: r₁.names = [x] ++ r₁.names := rfl
          rw [hcons, List.append_left_inj] at htaken
          exact hmem (by rw [htaken]; exact List.mem_singleton_self x))
      refine ih hs₁ hnames₁ hadmits₁ hlast (hsame.trans hf) ?_
        fun k hk => hlater k (List.mem_cons_of_mem step hk)
      rintro ⟨k, h, hk, hsector⟩
      rw [hs.rolls hrun] at hk
      exact Step.rolls_unopened (fun k h hk hsector => hx ⟨k, h, hk, hsector⟩)
        (fun k heq => hlater k (heq ▸ List.mem_cons_self)) k h hk hsector

/-- Opening a file that nobody has open shows what the file is. -/
theorem exists_opened (hs : s.Shows reserved [] r) (hf : r.files.get? x = some f)
    (hx : ¬s.IsOpen x) (k : Nat) :
    ∃ t, run (.open k x) s = .ok (.number x.toNat) t ∧ (t.inodeAt x).length.toNat = f.length ∧
      (∀ p, t.hidden x p = f.bytes.getD p 0) ∧
      ∀ p, p < f.length → t.Reads k p (f.bytes.getD p 0) := by
  obtain ⟨a, t, hrun, hanswer, ht, -⟩ := (follows_open hs k x hf).exists_ok
  have hfile : (r.keep k ⟨x, false⟩).files.get? x = some f := by
    rw [Reference.get?_keep_of_unopened (hs.forall_opened hx), hf]
  have hk : t.handles.get? k = some ⟨x, false⟩ := by
    rw [hs.rolls hrun, Step.rolls, Table.get?_insert, if_pos rfl]
  obtain ⟨hk', f', hf', hn⟩ := ht.exists_file hk
  obtain rfl : f' = f := Option.some.inj (hf'.symm.trans hfile)
  refine ⟨t, by rw [hrun, hanswer _ rfl], hn.length_eq, hidden_eq hn, fun p hp => ?_⟩
  exact ht.reads hk' hfile hp

end Shows

end Session

end SectorVolume
