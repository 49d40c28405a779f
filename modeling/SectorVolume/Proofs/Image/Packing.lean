import SectorVolume.Proofs.FreeMap.Reserve
import SectorVolume.Proofs.Image.Filled
import SectorVolume.Proofs.Image.Outcomes

/-!
Packing host files. The copies lie one after the other from sector 1 on, each with its inode
first, so whether they fit is a matter of adding up their sectors. The first host file that cannot
be packed ends it, and what is said of that file depends on its length and on what lies before it.
-/

namespace SectorVolume

namespace HostFile

/-- The length of a host file while an image of so many sectors is made. -/
def length? (sectors : Nat) : HostFile → Option Nat
  | missing => none
  | contents data => some data.size
  | image => some (sectors * sectorSize)

/-- How many sectors of the image its copy takes. -/
def space (sectors : Nat) (file : HostFile) : Nat := (file.length? sectors).elim 0 sectorsFor

/-- What is said of a host file that cannot be packed while so many sectors are free. -/
def error? (sectors free : Nat) (file : HostFile) : Option ImageError :=
  (file.length? sectors).elim (some .missingFile) fun length =>
    (refusal? free length).map .refused

variable {sectors free length : Nat} {file : HostFile}

theorem space_of_length? (h : file.length? sectors = some length) :
    file.space sectors = sectorsFor length := by
  rw [space, h]
  rfl

theorem error?_of_length? (h : file.length? sectors = some length) :
    file.error? sectors free = (refusal? free length).map .refused := by
  rw [error?, h]
  rfl

theorem error?_of_missing (h : file.length? sectors = none) :
    file.error? sectors free = some .missingFile := by
  rw [error?, h]
  rfl

theorem error?_eq_none_iff : file.error? sectors free = none ↔
    ∃ length, file.length? sectors = some length ∧ length ≤ maxLength ∧
    sectorsFor length ≤ free := by
  cases hlength : file.length? sectors with
  | none => simp [error?_of_missing hlength]
  | some length => simp [error?_of_length? hlength, refusal?_eq_none_iff]

theorem space_le_of_error? (h : file.error? sectors free = none) : file.space sectors ≤ free := by
  obtain ⟨length, hlength, _, hle⟩ := error?_eq_none_iff.1 h
  rw [space_of_length? hlength]
  exact hle

end HostFile

namespace Image

variable {sectors free next : Nat} {path : String} {file : HostFile}
  {hosts : List (String × HostFile)}

/-- How many sectors the copies of host files take together. -/
def space (sectors : Nat) (hosts : List (String × HostFile)) : Nat :=
  (hosts.map fun host => host.2.space sectors).sum

/-- All host files can be read, none is too long, and there are free sectors for all. -/
structure Fits (sectors free : Nat) (hosts : List (String × HostFile)) : Prop where
  readable : ∀ host ∈ hosts, ∃ length, host.2.length? sectors = some length ∧ length ≤ maxLength
  space_le : space sectors hosts ≤ free

/-- The error is what is said of the first host file that cannot be packed; those before it
fit. -/
def Fails (sectors free : Nat) (hosts : List (String × HostFile)) (e : ImageError) : Prop :=
  ∃ before path file after, hosts = before ++ (path, file) :: after ∧ Fits sectors free before ∧
    file.error? sectors (free - space sectors before) = some e

theorem space_cons :
    space sectors ((path, file) :: hosts) = file.space sectors + space sectors hosts :=
  List.sum_cons

theorem fits_nil : Fits sectors free [] :=
  ⟨fun _ hmem => absurd hmem List.not_mem_nil, Nat.zero_le _⟩

theorem fits_cons_iff : Fits sectors free ((path, file) :: hosts) ↔
    file.error? sectors free = none ∧ Fits sectors (free - file.space sectors) hosts := by
  rw [HostFile.error?_eq_none_iff]
  constructor
  · rintro ⟨hreadable, hspace⟩
    obtain ⟨length, hlength, hle⟩ := hreadable _ List.mem_cons_self
    have hown : file.space sectors = sectorsFor length := HostFile.space_of_length? hlength
    rw [space_cons] at hspace
    exact ⟨⟨length, hlength, hle, by omega⟩,
      fun host hmem => hreadable host (List.mem_cons_of_mem _ hmem), by omega⟩
  · rintro ⟨⟨length, hlength, hle, hfree⟩, hreadable, hspace⟩
    have hown : file.space sectors = sectorsFor length := HostFile.space_of_length? hlength
    refine ⟨fun host hmem => ?_, by rw [space_cons]; omega⟩
    rcases List.mem_cons.1 hmem with rfl | hmem
    · exact ⟨length, hlength, hle⟩
    · exact hreadable host hmem

theorem fits_append_iff {before after : List (String × HostFile)} :
    Fits sectors free (before ++ after) ↔
      Fits sectors free before ∧ Fits sectors (free - space sectors before) after := by
  induction before generalizing free with
  | nil => exact ⟨fun h => ⟨fits_nil, h⟩, fun h => h.2⟩
  | cons host before ih =>
    obtain ⟨path, file⟩ := host
    rw [List.cons_append, fits_cons_iff, fits_cons_iff, ih, space_cons, and_assoc, Nat.sub_sub]

theorem Fails.not_fits {e : ImageError} (h : Fails sectors free hosts e) :
    ¬Fits sectors free hosts := by
  obtain ⟨before, path, file, after, rfl, _, he⟩ := h
  rw [fits_append_iff, fits_cons_iff, he]
  exact fun hfits => absurd hfits.2.1 (by simp)

theorem fails_head {e : ImageError} (h : file.error? sectors free = some e) :
    Fails sectors free ((path, file) :: hosts) e :=
  ⟨[], path, file, hosts, rfl, fits_nil, h⟩

theorem Fails.cons {e : ImageError} (h : Fails sectors (free - file.space sectors) hosts e)
    (hfile : file.error? sectors free = none) : Fails sectors free ((path, file) :: hosts) e := by
  obtain ⟨before, path', file', after, rfl, hbefore, he⟩ := h
  refine ⟨(path, file) :: before, path', file', after, rfl, fits_cons_iff.2 ⟨hfile, hbefore⟩, ?_⟩
  rw [space_cons, ← Nat.sub_sub]
  exact he

section Copies

variable {d : Medium} {files : UInt32 → Option File}

/-- A host file is read without the image. If it is the image itself, it has the length of the
disk. -/
theorem ends_readHost (file : HostFile) (d : Medium) : Ends (readHost file) d fun r d' => d' = d ∧
    ((file.length? d.size = none ∧ r = .error .missingFile) ∨
      ∃ data, file.length? d.size = some data.size ∧ r = .ok data ∧
        (file = .image ∨ file = .contents ⟨data⟩)) := by
  cases file with
  | missing => exact ends_throw ⟨rfl, Or.inl ⟨rfl, rfl⟩⟩
  | contents data => exact ends_pure ⟨rfl, Or.inr ⟨data.data, rfl, rfl, Or.inr rfl⟩⟩
  | image =>
    intro e he
    exact ⟨_, e, d, rfl, he, rfl, Or.inr ⟨_, congrArg some he.size_image.symm, rfl, Or.inl rfl⟩⟩

/-- An image has no room for a copy of itself. -/
theorem error?_image (hfree : free ≤ sectors) : HostFile.error? sectors free .image ≠ none := by
  rw [Ne, HostFile.error?_eq_none_iff]
  rintro ⟨_, ⟨⟩, _, hspace⟩
  have hblocks : sectors ≤ totalBlocks (sectors * sectorSize) := by
    simp only [totalBlocks, dataBlocks, sectorSize]
    omega
  rw [sectorsFor] at hspace
  omega

/-- The file in a sector is the copy of a host file. -/
def Copied (files : UInt32 → Option File) (host : String × HostFile) (x : UInt32) : Prop :=
  ∃ data f, host.2 = .contents data ∧ files x = some f ∧ f.Has data.data

/-- A host file goes into the next sectors. -/
theorem ends_packFile (h : d.Filled sectors next files) (hle : next ≤ sectors) (path : String)
    (file : HostFile) : Ends (packFile path file) d fun r d' =>
      (∃ e, file.error? sectors (sectors - next) = some e ∧ r = .error e) ∨
      (file.error? sectors (sectors - next) = none ∧ ∃ x f, r = .ok x ∧ x.toNat = next ∧
        files x = none ∧ Copied (Function.update files x (some f)) (path, file) x ∧
        d'.Filled sectors (next + file.space sectors) (Function.update files x (some f))) := by
  refine (ends_readHost file d).bind ?_ ?_
  · rintro data d ⟨rfl, hnone | ⟨data, hlength, ⟨⟩, hcontents⟩⟩
    · exact absurd hnone.2 (by simp)
    · rw [h.size] at hlength
      have herror : file.error? sectors (sectors - next) = _ := HostFile.error?_of_length? hlength
      rw [herror, HostFile.space_of_length? hlength]
      by_cases hfull : sectors - next = 0
      · have hnil : d.map.supply = [] := by
          rw [h.supply, hfull]
          rfl
        refine ends_script_bind (Script.eval_allocSector_of_nil hnil)
          (ends_throw (Or.inl ⟨.refused .noSpace, ?_, rfl⟩))
        rw [refusal?, if_pos hfull]
        rfl
      · obtain ⟨hnone, halloc, r, d', hcreate, hrefused, hok⟩ := h.create (by omega) rfl data.size
        refine ends_script_bind halloc (ends_script_bind hcreate ?_)
        cases hrefusal : refusal? (sectors - next) data.size with
        | some refusal =>
          obtain rfl := hrefused refusal hrefusal
          exact ends_throw (Or.inl ⟨_, rfl, rfl⟩)
        | none =>
          obtain ⟨rfl, hfilled⟩ := hok hrefusal
          obtain ⟨g, d'', f, hgives, hf, hfilled'⟩ := hfilled.copy (Function.update_self ..)
          rw [Function.update_idem] at hfilled'
          have hcopied : file = .contents ⟨data⟩ := by
            refine hcontents.resolve_left ?_
            rintro rfl
            refine error?_image (Nat.sub_le sectors next) ?_
            rw [herror, hrefusal]
            rfl
          refine ends_script_bind (eval_run' hgives) ?_
          rw [if_pos rfl]
          refine ends_pure (Or.inr ⟨rfl, _, f, rfl, ?_, hnone, ?_, hfilled'⟩)
          · apply UInt32.toNat_ofNat_of_lt'
            have := h.numbered
            omega
          · exact ⟨⟨data⟩, f, hcopied, Function.update_self .., hf⟩
  · rintro x _ ⟨rfl, hnone | ⟨data, _, hdata, _⟩⟩
    · refine Or.inl ⟨x, ?_, rfl⟩
      rw [h.size] at hnone
      rw [HostFile.error?_of_missing hnone.1]
      exact congrArg some (Except.error.inj hnone.2).symm
    · exact absurd hdata (by simp)

theorem packFiles_cons (path : String) (file : HostFile) (hosts : List (String × HostFile)) :
    packFiles ((path, file) :: hosts) = packFile path file >>= fun x =>
      packFiles hosts >>= fun xs => pure (x :: xs) := List.mapM_cons

/-- Where each copy begins: after all copies before it. -/
def places (sectors next : Nat) (hosts : List (String × HostFile)) : List Nat :=
  (List.range hosts.length).map fun k => next + space sectors (hosts.take k)

theorem places_cons : places sectors next ((path, file) :: hosts) =
    next :: places sectors (next + file.space sectors) hosts := by
  rw [places, List.length_cons, List.range_succ_eq_map, List.map_cons, List.map_map]
  refine congrArg (next :: ·) (List.map_congr_left fun k _ => ?_)
  rw [Function.comp, List.take_succ_cons, space_cons, Nat.add_assoc]

/-- The host files were all copied, in order, besides the files that had been there. -/
structure Packed (sectors next : Nat) (hosts : List (String × HostFile))
    (files files' : UInt32 → Option File) (xs : List UInt32) : Prop where
  places_eq : xs.map UInt32.toNat = places sectors next hosts
  copied : List.Forall₂ (Copied files') hosts xs
  kept : ∀ x f, files x = some f → files' x = some f

theorem Packed.cons {files' : UInt32 → Option File} {x : UInt32} {xs : List UInt32} {f : File}
    (h : Packed sectors (next + file.space sectors) hosts (Function.update files x (some f))
      files' xs)
    (hnumber : x.toNat = next) (hnone : files x = none)
    (hcopied : Copied (Function.update files x (some f)) (path, file) x) :
    Packed sectors next ((path, file) :: hosts) files files' (x :: xs) where
  places_eq := by rw [List.map_cons, h.places_eq, hnumber, places_cons]
  copied := by
    obtain ⟨data, g, hfile, hg, hhas⟩ := hcopied
    exact .cons ⟨data, g, hfile, h.kept x g hg, hhas⟩ h.copied
  kept y g hg := by
    apply h.kept
    rw [Function.update_of_ne]
    · exact hg
    · rintro rfl
      rw [hnone] at hg
      exact absurd hg (by simp)

/-- One host file after the other is packed until one cannot be. -/
theorem ends_packFiles (h : d.Filled sectors next files) (hle : next ≤ sectors)
    (hosts : List (String × HostFile)) : Ends (packFiles hosts) d fun r d' =>
      (∃ e, Fails sectors (sectors - next) hosts e ∧ r = .error e) ∨
      (Fits sectors (sectors - next) hosts ∧ ∃ xs files', r = .ok xs ∧
        Packed sectors next hosts files files' xs ∧
        d'.Filled sectors (next + space sectors hosts) files') := by
  induction hosts generalizing d next files with
  | nil => exact ends_pure (Or.inr ⟨fits_nil, [], files, rfl, ⟨rfl, .nil, fun _ _ hf => hf⟩, h⟩)
  | cons host hosts ih =>
    obtain ⟨path, file⟩ := host
    rw [packFiles_cons]
    refine (ends_packFile h hle path file).bind ?_ ?_
    · rintro x d' (⟨_, _, hx⟩ | ⟨hfile, x, f, ⟨⟩, hnumber, hnone, hcopied, hfilled⟩)
      · exact absurd hx (by simp)
      · have hspace :
            sectors - (next + file.space sectors) = sectors - next - file.space sectors :=
          Nat.sub_add_eq ..
        have hroom := HostFile.space_le_of_error? hfile
        refine (ih hfilled (by omega)).bind ?_ ?_
        · rintro xs d'' (⟨_, _, hxs⟩ | ⟨hfits, _, files', ⟨⟩, hpacked, hfilled'⟩)
          · exact absurd hxs (by simp)
          · rw [hspace] at hfits
            rw [Nat.add_assoc, ← space_cons] at hfilled'
            exact ends_pure (Or.inr ⟨fits_cons_iff.2 ⟨hfile, hfits⟩, x :: xs, files', rfl,
              hpacked.cons hnumber hnone hcopied, hfilled'⟩)
        · rintro e d'' (⟨_, hfails, ⟨⟩⟩ | ⟨_, xs, _, hxs, _⟩)
          · rw [hspace] at hfails
            exact Or.inl ⟨e, hfails.cons hfile, rfl⟩
          · exact absurd hxs (by simp)
    · rintro e d' (⟨_, he, ⟨⟩⟩ | ⟨_, x, f, hx, _⟩)
      · exact Or.inl ⟨e, fails_head he, rfl⟩
      · exact absurd hx (by simp)

end Copies

end Image

end SectorVolume
