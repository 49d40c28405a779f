import SectorVolume.Proofs.Session.Versions

/-!
Nobody can tell how large the cache is, or when it was flushed: two runs of the same steps give
the same answers and leave the same disk and the same free map behind. Nor can a volume be told
from what it is after it was unmounted and mounted again.
-/

namespace SectorVolume

/-- A disk that is up to date is told by what the cache in front of it shows. -/
theorem Cached.device_eq_of_content {c d : Cached RamDisk} (hsmall : c.size ≤ UInt32.size)
    (hsize : c.size = d.size) (hcontent : c.content = d.content)
    (hc : ∀ x : UInt32, x.toNat < c.size →
      c.disk.device.sectors[x.toNat]? = some (c.content x))
    (hd : ∀ x : UInt32, x.toNat < d.size →
      d.disk.device.sectors[x.toNat]? = some (d.content x)) :
    c.disk.device = d.disk.device := by
  refine congrArg RamDisk.mk (Array.ext hsize fun i hi hi' => ?_)
  obtain ⟨x, rfl⟩ : ∃ x : UInt32, x.toNat = i :=
    ⟨UInt32.ofNat i, UInt32.toNat_ofNat_of_lt' (Nat.lt_of_lt_of_le hi hsmall)⟩
  have hx := hc x hi
  have hx' := hd x hi'
  rw [Array.getElem?_eq_getElem hi] at hx
  rw [Array.getElem?_eq_getElem hi'] at hx'
  rw [Option.some.inj hx, Option.some.inj hx', hcontent]

namespace Session

variable {s t : Session} {r : Reference} {reserved : Nat}

theorem Shows.opened_eq_nil (hs : s.Shows reserved [] r) (hclosed : s.handles.entries = []) :
    r.opened = [] := by
  rw [Reference.opened, ← hs.handles, hclosed]
  rfl

/-- The registry has entries only as long as there are handles. -/
theorem Shows.registry_eq_empty (hs : s.Shows reserved [] r) (hclosed : s.handles.entries = []) :
    s.registry = Table.empty := by
  apply Table.eq_empty_of_get?_eq_none
  intro x
  have hcount := hs.counts x
  rw [hs.opened_eq_nil hclosed] at hcount
  exact hcount

/-- Twins leave the same disk behind. -/
theorem unmount_twins (hs : s.Shows reserved [] r) (ht : Twins s t)
    (hsize : s.engine.store.size ≤ UInt32.size) :
    ∃ u v, unmount s = .ok () u ∧ unmount t = .ok () v ∧
      u.engine.store.disk.device = v.engine.store.disk.device ∧ u.engine.map = v.engine.map := by
  obtain ⟨u, hu, hshows, -, -, hdisk⟩ := exists_unmount hs
  obtain ⟨v, hv, -, -, -, hdisk'⟩ := exists_unmount (ht.shows hs)
  have huv : Twins u v := by
    rcases Steady.unmount.twins ht hu with hstray | ⟨v', hv', htwins⟩
    · exact absurd hstray hshows.coherent.not_stray
    · rw [hv, EStateM.Result.ok.injEq] at hv'
      rw [hv'.2]
      exact htwins
  have hsmall : u.engine.store.size ≤ UInt32.size := by
    rw [(Steady.unmount.confined hu).size]
    exact hsize
  exact ⟨u, v, hu, hv, Cached.device_eq_of_content hsmall (congrArg Medium.size huv.medium)
    (congrArg Medium.content huv.medium) hdisk hdisk', huv.map⟩

open Step in
/-- No steps on files tell two sessions apart, whenever either is flushed: what is observed is the
same, and so are the disk and the free map at the end. The reference tells which steps are
allowed; its new files lie where the first session makes them. -/
def Indistinguishable (r : Reference) (s t : Session) : Prop :=
  ∀ steps₁ steps₂, Versions steps₁ steps₂ →
    Reference.admitsAll (steps₁.filter onFiles)
      { r with names := (play steps₁ s).answers.flatMap made } = true →
    observed steps₁ (play steps₁ s).answers = observed steps₂ (play steps₂ t).answers ∧
      (∀ f, (play steps₁ s).final = .error f ↔ (play steps₂ t).final = .error f) ∧
      ∀ s', (play steps₁ s).final = .ok s' → ∃ t' u v, (play steps₂ t).final = .ok t' ∧
        unmount s' = .ok () u ∧ unmount t' = .ok () v ∧
        u.engine.store.disk.device = v.engine.store.disk.device ∧ u.engine.map = v.engine.map

theorem Shows.rename (hs : s.Shows reserved [] r) (names : List UInt32) :
    s.Shows reserved [] { r with names } :=
  ⟨hs.coherent, hs.holds, hs.space, hs.handles, hs.sorted, hs.counts, hs.live, hs.removed_opened⟩

theorem Twins.indistinguishable (ht : Twins s t) (hs : s.Shows reserved [] r)
    (hsize : s.engine.store.size ≤ UInt32.size) : Indistinguishable r s t := by
  intro steps₁ steps₂ hv hadmits
  obtain ⟨hanswers, hends⟩ := versions_alike hv rfl (hs.rename _) ht rfl hadmits
  refine ⟨hanswers, ?_⟩
  cases hlast : (play steps₁ s).final with
  | error f =>
    cases hlast' : (play steps₂ t).final with
    | error g =>
      rw [hlast, hlast'] at hends
      obtain rfl : f = g := hends
      exact ⟨fun _ => Iff.rfl, fun s' h => absurd h (by simp)⟩
    | ok t' =>
      rw [hlast, hlast'] at hends
      exact False.elim hends
  | ok s' =>
    cases hlast' : (play steps₂ t).final with
    | error g =>
      rw [hlast, hlast'] at hends
      exact False.elim hends
    | ok t' =>
      rw [hlast, hlast'] at hends
      obtain ⟨htwins, hsize', r', hs'⟩ := hends
      refine ⟨fun f => ⟨fun h => absurd h (by simp), fun h => absurd h (by simp)⟩, fun u hu => ?_⟩
      obtain rfl := Except.ok.inj hu
      obtain ⟨u, v, hu, hv, hdevice, hmap⟩ := unmount_twins hs' htwins (hsize' ▸ hsize)
      exact ⟨t', u, v, rfl, hu, hv, hdevice, hmap⟩

theorem mount_eq_ok {capacity : Nat} (hcapacity : 0 < capacity) (s : Session) :
    mount capacity s = .ok () { s with
      engine := ⟨⟨Cache.empty capacity hcapacity, s.engine.store.disk⟩, s.engine.map⟩
      registry := Table.empty } := by
  rw [mount, Cache.ofCapacity, dif_pos hcapacity]
  rfl

/-- No handles are open, and the volume is unmounted and mounted again. -/
theorem exists_remount_twin (hs : s.Shows reserved [] r) (hclosed : s.handles.entries = [])
    {capacity : Nat} (hcapacity : 0 < capacity) :
    ∃ a t, run (.remount capacity) s = .ok a t ∧ t.engine.store.cache.capacity = capacity ∧
      Twins s t := by
  obtain ⟨s₁, hflush, ht, hdisk⟩ := exists_flush_twin hs.coherent
  obtain ⟨a, hsummary, -⟩ := run_summary s₁
  have hunmount : unmount s = .ok () s₁ := by
    have hget : (get : SessionM Session) s = .ok s s := rfl
    rw [unmount, bind_of_ok hget, hclosed]
    exact hflush
  have hregistry := hs.registry_eq_empty hclosed
  have hcontent := Cached.content_remounted ht.right hdisk capacity hcapacity
  have hrun : run (.remount capacity) s = .ok a { s₁ with
      engine := ⟨⟨Cache.empty capacity hcapacity, s₁.engine.store.disk⟩, s₁.engine.map⟩
      registry := Table.empty } := by
    rw [run, bind_of_ok hunmount, bind_of_ok hsummary, bind_of_ok (mount_eq_ok hcapacity s₁)]
    rfl
  refine ⟨a, _, hrun, Array.size_replicate, hs.coherent,
    Cached.coherent_empty capacity hcapacity _, ?_, hregistry, ht.handles⟩
  · rw [ht.medium]
    simp only [Engine.medium, hcontent]
    rfl

/-- The disk keeps its size. -/
theorem size_of_run {step : Step} (hadmits : r.admits step = true) {a : Answer} {s' : Session}
    (h : run step s = .ok a s') : s'.engine.store.size = s.engine.store.size := by
  cases step with
  | make length isDir => exact ((Steady.make length isDir).confined h).size
  | «open» k x => exact ((Steady.open k x).confined h).size
  | openInodes => exact (Steady.openInodes.confined h).size
  | handle k step => exact ((Steady.handle k step).confined h).size
  | map step => exact ((Steady.onMap step.run).confined h).size
  | flush => exact ((Steady.flush.bind_pure _).confined h).size
  | summary =>
    cases h
    rfl
  | remount capacity =>
    obtain ⟨_, s₁, hunmount, hrest⟩ := exists_of_bind_ok h
    obtain ⟨_, s₂, hsummary, hrest'⟩ := exists_of_bind_ok hrest
    obtain ⟨_, s₃, hmount, hdone⟩ := exists_of_bind_ok hrest'
    have hsize := (Steady.unmount.confined hunmount).size
    cases hsummary
    obtain rfl : s₃ = s' := by injection hdone
    rcases Nat.eq_zero_or_pos capacity with rfl | hpos
    · cases hmount
    · rw [mount_eq_ok hpos, EStateM.Result.ok.injEq] at hmount
      rw [← hmount.2]
      exact hsize
  | _ => exact absurd hadmits (by simp [Reference.admits])

theorem size_of_play {steps : List Step} (hs : s.Shows reserved [] r)
    (hnames : r.names = (play steps s).answers.flatMap made)
    (hadmits : Reference.admitsAll steps r = true)
    {s' : Session} (h : (play steps s).final = .ok s') :
    s'.engine.store.size = s.engine.store.size := by
  induction steps generalizing s r with
  | nil =>
    obtain rfl := Except.ok.inj h
    rfl
  | cons step rest ih =>
    rw [Reference.admitsAll, Bool.and_eq_true] at hadmits
    obtain ⟨hstep, hrest⟩ := hadmits
    cases hrun : run step s with
    | error f s₁ =>
      rw [play_cons_of_error hrun] at h
      exact absurd h (by simp)
    | ok a s₁ =>
      rw [play_cons_of_ok hrun] at h hnames
      have hprefix : made a <+: r.names := by
        rw [hnames]
        exact List.prefix_append (made a) _
      obtain ⟨expected, r', hr, hs₁, hmade⟩ := shows_of_run_ok hs hstep hrun hprefix
      rw [hr] at hrest
      rw [hmade] at hnames
      exact (ih hs₁ (List.append_cancel_left hnames) hrest h).trans (size_of_run hstep hrun)

theorem startOn_eq_ok {disk : RamDisk} {mapped reserved capacity others : Nat} (h : 0 < capacity)
    (hs : startOn disk mapped reserved capacity others = .ok s) :
    ∃ map, (FreeMap.ofBitmap (Bitmap.blank mapped)).reserve 0 reserved = .ok map ∧
      s = { engine := ⟨⟨Cache.empty capacity h, Metered.ofDevice disk⟩, map⟩
            foreign := Metered.ofDevice (RamDisk.blank others)
            registry := Table.empty
            handles := Table.empty
            held := Table.empty } := by
  rw [startOn, start, Cache.ofCapacity, dif_pos h] at hs
  cases hmap : (FreeMap.ofBitmap (Bitmap.blank mapped)).reserve 0 reserved with
  | error f =>
    rw [hmap] at hs
    cases hs
  | ok map =>
    rw [hmap] at hs
    exact ⟨map, rfl, (Except.ok.inj hs).symm⟩

/-- Two sessions begin on the same disk and free map. -/
theorem startOn_twins {disk : RamDisk} {mapped reserved capacity₁ capacity₂ others : Nat}
    (h₁ : 0 < capacity₁) (h₂ : 0 < capacity₂)
    (hs : startOn disk mapped reserved capacity₁ others = .ok s)
    (ht : startOn disk mapped reserved capacity₂ others = .ok t) : Twins s t := by
  obtain ⟨map, hmap, rfl⟩ := startOn_eq_ok h₁ hs
  obtain ⟨map', hmap', rfl⟩ := startOn_eq_ok h₂ ht
  obtain rfl : map = map' := Except.ok.inj (hmap.symm.trans hmap')
  refine ⟨Cached.coherent_empty capacity₁ h₁ _, Cached.coherent_empty capacity₂ h₂ _, ?_, rfl,
    rfl⟩
  have hcontent : Cached.content ⟨Cache.empty capacity₁ h₁, Metered.ofDevice disk⟩ =
      Cached.content ⟨Cache.empty capacity₂ h₂, Metered.ofDevice disk⟩ := by
    funext x
    rw [Cached.content_empty, Cached.content_empty]
  exact congrArg (fun content => Medium.mk disk.sectors.size content map) hcontent

/-- The number of slots and the moments of flushes cannot be told from any run on the same disk
and free map. A session without open handles, whatever happened in it before, cannot be told from
the one that goes on after it was unmounted and mounted again. -/
theorem runs_do_not_show_the_cache {disk : RamDisk} {mapped reserved capacity₁ capacity₂ : Nat}
    (hreserved : 0 < reserved) (hfit : reserved ≤ mapped) (hmapped : mapped ≤ disk.sectors.size)
    (hsectors : disk.sectors.size ≤ UInt32.size) (hcapacity₁ : 0 < capacity₁)
    (hcapacity₂ : 0 < capacity₂) (others : Nat) :
    ∃ s t, startOn disk mapped reserved capacity₁ others = .ok s ∧
      startOn disk mapped reserved capacity₂ others = .ok t ∧
      Indistinguishable (Reference.start (mapped - reserved) []) s t ∧
      ∀ history s', Reference.admitsAll history (Reference.start (mapped - reserved)
          ((play history s).answers.flatMap made)) = true →
        (play history s).final = .ok s' → s'.handles.entries = [] →
        ∃ answers r, Reference.play history (Reference.start (mapped - reserved)
            ((play history s).answers.flatMap made)) = some (answers, .ok r) ∧
          ∀ capacity, 0 < capacity → ∃ a t', run (.remount capacity) s' = .ok a t' ∧
            t'.engine.store.cache.capacity = capacity ∧ t'.engine.medium = s'.engine.medium ∧
            Indistinguishable r s' t' := by
  obtain ⟨s, hs, hshows⟩ := exists_start hreserved hfit hmapped hsectors hcapacity₁ others
  obtain ⟨t, ht, -⟩ := exists_start hreserved hfit hmapped hsectors hcapacity₂ others
  have hsize : s.engine.store.size = disk.sectors.size := by
    obtain ⟨map, -, rfl⟩ := startOn_eq_ok hcapacity₁ hs
    rfl
  refine ⟨s, t, hs, ht, ?_, fun history s' hadmits hlast hclosed => ?_⟩
  · exact (startOn_twins hcapacity₁ hcapacity₂ hs ht).indistinguishable (hshows [])
      (hsize ▸ hsectors)
  · obtain ⟨answers, final, hplay, -, hends⟩ := follows_play history (hshows _) rfl hadmits
    rw [hlast] at hends
    cases final with
    | error f => exact False.elim hends
    | ok r =>
      refine ⟨answers, r, hplay, fun capacity hcapacity => ?_⟩
      obtain ⟨a, t', hrun, hslots, htwins⟩ := exists_remount_twin hends hclosed hcapacity
      have hsize' := (size_of_play (hshows _) rfl hadmits hlast).trans hsize
      exact ⟨a, t', hrun, hslots, htwins.medium.symm,
        htwins.indistinguishable hends (hsize' ▸ hsectors)⟩

/-- The short run, with flushes and a look at the counters in between. -/
def flushedRun : List Step :=
  [.make 3 false, .flush, .open 0 1, .cache .stats, .handle 0 (.write 1 #[7]),
    .handle 0 (.read 0 #[0, 0]), .flush]

theorem versions_flushedRun : Step.Versions shortRun flushedRun :=
  .both rfl <| .right rfl <| .both rfl <| .right rfl <| .both rfl <| .both rfl <| .right rfl .nil

/-- The short run, and its handle is closed. -/
def closedRun : List Step := shortRun ++ [.handle 0 .close]

theorem made_closedRun {s : Session} (hstart : startOn usedDisk 8 1 1 0 = .ok s) :
    (play closedRun s).answers.flatMap made = [1] := by
  have heval : (startOn usedDisk 8 1 1 0).toOption.map (fun s =>
      (play closedRun s).answers.flatMap made) = some [1] := by
    decide +kernel
  exact eq_of_usedDisk hstart heval

theorem exists_closed {s : Session} (hstart : startOn usedDisk 8 1 1 0 = .ok s) :
    ∃ s', (play closedRun s).final = .ok s' ∧ s'.handles.entries = [] := by
  have heval : (startOn usedDisk 8 1 1 0).toOption.bind (fun s =>
      (play closedRun s).final.toOption.map fun s => s.handles.entries) = some [] := by
    decide +kernel
  exact exists_end_of_usedDisk hstart heval

theorem shortRun_does_not_show_the_cache :
    ∃ s t s', startOn usedDisk 8 1 1 0 = .ok s ∧ startOn usedDisk 8 1 3 0 = .ok t ∧
      Step.observed shortRun (play shortRun s).answers =
        Step.observed flushedRun (play flushedRun t).answers ∧
      (play closedRun s).final = .ok s' ∧ s'.handles.entries = [] ∧
      ∃ r a t', run (.remount 2) s' = .ok a t' ∧ Indistinguishable r s' t' := by
  have hsize : usedDisk.sectors.size = 8 := Array.size_replicate
  obtain ⟨s, t, hs, ht, hboth, hremount⟩ := runs_do_not_show_the_cache (by decide : 0 < 1)
    (by decide : 1 ≤ 8) (Nat.le_of_eq hsize.symm) (by rw [hsize]; decide) (by decide : 0 < 1)
    (by decide : 0 < 3) 0
  obtain ⟨s', hlast, hclosed⟩ := exists_closed hs
  have hanswers := hboth shortRun flushedRun versions_flushedRun (by
    rw [made_shortRun hs]
    decide +kernel)
  obtain ⟨answers, r, -, hmounted⟩ := hremount closedRun s' (by
    rw [made_closedRun hs]
    decide +kernel) hlast hclosed
  obtain ⟨a, t', hrun, -, -, hsame⟩ := hmounted 2 (by decide)
  exact ⟨s, t, s', hs, ht, hanswers.1, hlast, hclosed, r, a, t', hrun, hsame⟩

end Session

end SectorVolume
