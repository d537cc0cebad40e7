/-
Which loader of a directory is offered. It is to be the first of the known names that is there and is not
Bang. The code takes the first that is there and, where it looks like Bang, offers none at all, and what it
takes for Bang is any file whose path the text of Bang's own path ends with.
-/
import Bang.Discover.Examined

namespace Bang

/-! ## What is to be offered -/

/-- Where Bang's image is: its volume, its file there, and the text of the nodes in front of the file's path in
what the firmware reports, if it reports them. -/
structure OwnFile where
  device : Handle
  nodes : CString16
  file : CString16

/-- What is reported of Bang's image: the volume, and the text of the path. -/
def OwnFile.reported (o : OwnFile) : Handle × CString16 := (o.device, o.nodes ++ o.file)

/-- The file is Bang's. -/
def isBang (device : Handle) (own : Option OwnFile) (path : CString16) : Bool :=
  own.any fun o => o.device = device && SameName path o.file

/-- The file is taken for Bang's. -/
def takenForBang (device : Handle) (own : Option OwnFile) (path : CString16) : Bool :=
  own.any fun o => o.device = device && sameFile (o.nodes ++ o.file) path

section
variable (toUppercase : Char → Str) (device : Handle) (root : Volume) (own : Option OwnFile) (vendor : CString16)

/-- What is found in a loader of a directory. -/
def foundIn (loader : CString16) : Found := ⟨pretty toUppercase vendor loader, device, loaderPath vendor loader⟩

/-- The loader is in the directory. -/
def present (loader : CString16) : Bool := root.exists (loaderPath vendor loader)

/-- The loader is in the directory, and is not Bang. -/
def bootable (loader : CString16) : Bool :=
  present root vendor loader && !isBang device own (loaderPath vendor loader)

/-- The loader to offer for a directory: the first that is there and is not Bang. -/
def loaderToOffer : Option Found :=
  (loaders.find? (bootable device root own vendor)).map (foundIn toUppercase device vendor)

/-- The volume adds Windows, and for each directory under `\EFI` the loader to offer, if it has one. -/
def OffersAll (out : List Found) : Prop :=
  probe toUppercase device root (own.map OwnFile.reported) out =
    out ++ windowsFound device root ++ (vendors (efiRecords root)).filterMap (loaderToOffer toUppercase device root own)

/-- The first loader of the directory is taken for Bang, and there is one in it that is not Bang. -/
def Hides : Prop :=
  ∃ first, loaders.find? (present root vendor) = some first ∧ takenForBang device own (loaderPath vendor first) = true ∧
    ∃ other ∈ loaders, bootable device root own vendor other = true

/-! ## One directory -/

/-- What is offered for a directory: the first loader that is there, unless it is taken for Bang. -/
theorem probeLoaders_eq (names : List CString16) :
    probeLoaders toUppercase device root (own.map OwnFile.reported) vendor names =
      ((names.find? (present root vendor)).filter fun loader =>
        !takenForBang device own (loaderPath vendor loader)).map (foundIn toUppercase device vendor) := by
  induction names with
  | nil => rfl
  | cons loader rest ih =>
    unfold probeLoaders
    simp only
    by_cases hpresent : present root vendor loader = true
    · have htaken : ((own.map OwnFile.reported).any fun x => x.1 = device && sameFile x.2 (loaderPath vendor loader)) =
          takenForBang device own (loaderPath vendor loader) := by
        cases own <;> rfl
      rw [List.find?_cons_of_pos hpresent]
      refine (if_neg (not_not.2 hpresent)).trans ?_
      cases hbang : takenForBang device own (loaderPath vendor loader) with
      | true =>
        rw [Option.filter_some_neg (by simp [hbang])]
        exact if_pos (htaken.trans hbang)
      | false =>
        rw [Option.filter_some_pos (by simp [hbang])]
        exact if_neg (Bool.eq_false_iff.1 (htaken.trans hbang))
    · rw [List.find?_cons_of_neg hpresent]
      exact (if_pos hpresent).trans ih

variable {device own} in
/-- Bang is taken for Bang, whatever nodes stand in front of its path. -/
theorem takenForBang_of_isBang {path : CString16} (h : isBang device own path = true) :
    takenForBang device own path = true := by
  cases own with
  | none => cases h
  | some o =>
    simp only [isBang, takenForBang, Option.any_some, Bool.and_eq_true, decide_eq_true_eq] at h ⊢
    refine ⟨h.1, List.isSuffixOf_iff_suffix.2 ?_⟩
    have hname : toAsciiUppercase path = toAsciiUppercase o.file := h.2
    rw [hname]
    exact ⟨toAsciiUppercase o.nodes, (List.map_append ..).symm⟩

variable {device root own vendor} in
/-- Where no loader is there, none is bootable. -/
theorem find_bootable_none (hfirst : loaders.find? (present root vendor) = none) :
    loaders.find? (bootable device root own vendor) = none := by
  rw [List.find?_eq_none] at hfirst ⊢
  intro loader hloader hboth
  exact hfirst loader hloader (Bool.and_eq_true_iff.1 hboth).1

variable {device root own vendor} in
/-- The first loader that is there is the first that is bootable, unless it is Bang. -/
theorem find_bootable_first {first : CString16} (hfirst : loaders.find? (present root vendor) = some first)
    (hnot : isBang device own (loaderPath vendor first) = false) :
    loaders.find? (bootable device root own vendor) = some first := by
  obtain ⟨hpresent, before, after, hsplit, hbefore⟩ := List.find?_eq_some_iff_append.1 hfirst
  refine List.find?_eq_some_iff_append.2 ⟨?_, before, after, hsplit, fun x hx => ?_⟩
  · unfold bootable
    rw [hpresent, hnot]
    rfl
  · have habsent : present root vendor x = false := by simpa using hbefore x hx
    unfold bootable
    rw [habsent]
    rfl

/-- What is offered for a directory is what is to be, or nothing; and it is what is to be exactly when no loader
is hidden. -/
theorem probeLoaders_offered :
    (probeLoaders toUppercase device root (own.map OwnFile.reported) vendor loaders = none ∨
      probeLoaders toUppercase device root (own.map OwnFile.reported) vendor loaders =
        loaderToOffer toUppercase device root own vendor) ∧
    (probeLoaders toUppercase device root (own.map OwnFile.reported) vendor loaders =
        loaderToOffer toUppercase device root own vendor ↔ ¬ Hides device root own vendor) := by
  rw [probeLoaders_eq]
  unfold loaderToOffer Hides
  cases hfirst : loaders.find? (present root vendor) with
  | none =>
    rw [find_bootable_none hfirst]
    refine ⟨.inl rfl, iff_of_true rfl ?_⟩
    rintro ⟨first, h, -⟩
    cases h
  | some first =>
    cases htaken : takenForBang device own (loaderPath vendor first) with
    | false =>
      -- the first loader is not Bang
      have hnot : isBang device own (loaderPath vendor first) = false := by
        rw [← Bool.not_eq_true]
        intro hbang
        rw [takenForBang_of_isBang hbang] at htaken
        cases htaken
      rw [find_bootable_first hfirst hnot, Option.filter_some_pos (by simp [htaken])]
      refine ⟨.inr rfl, iff_of_true rfl ?_⟩
      rintro ⟨x, hx, hbang, -⟩
      cases hx
      rw [htaken] at hbang
      cases hbang
    | true =>
      rw [Option.filter_some_neg (by simp [htaken])]
      refine ⟨.inl rfl, ?_⟩
      constructor
      · rintro hnone ⟨-, -, -, other, hother, hboot⟩
        have hnone := Option.map_eq_none_iff.1 hnone.symm
        exact List.find?_eq_none.1 hnone other hother hboot
      · intro hhides
        refine (Option.map_eq_none_iff.2 ?_).symm
        rw [List.find?_eq_none]
        exact fun other hother hboot => hhides ⟨first, rfl, htaken, other, hother, hboot⟩

/-! ## The volume -/

/-- Leaving out some of what is kept leaves a shorter list. -/
theorem filterMap_eq_iff {α β : Type} {f g : α → Option β} (h : ∀ x, f x = none ∨ f x = g x) (l : List α) :
    (l.filterMap f).length ≤ (l.filterMap g).length ∧ (l.filterMap f = l.filterMap g ↔ ∀ x ∈ l, f x = g x) := by
  induction l with
  | nil => simp
  | cons x l ih =>
    obtain ⟨hle, hiff⟩ := ih
    rw [List.forall_mem_cons, ← hiff]
    cases hg : g x with
    | none =>
      have hf : f x = none := by
        rcases h x with hf | hf
        · exact hf
        · exact hf.trans hg
      rw [List.filterMap_cons_none hf, List.filterMap_cons_none hg, hf]
      exact ⟨hle, by simp⟩
    | some y =>
      rw [List.filterMap_cons_some hg]
      rcases h x with hf | hf
      · -- the element is left out
        rw [List.filterMap_cons_none hf, List.length_cons, hf]
        refine ⟨by omega, ?_⟩
        constructor
        · intro heq
          rw [heq, List.length_cons] at hle
          omega
        · rintro ⟨heq, -⟩
          cases heq
      · rw [List.filterMap_cons_some (hf.trans hg), List.length_cons, List.length_cons, hf, hg]
        exact ⟨by omega, by simp⟩

/-- The volume's loaders are all offered, one for each directory, exactly when no directory has its first loader
taken for Bang while another of its loaders is not Bang. -/
theorem offersAll_iff (out : List Found) :
    OffersAll toUppercase device root own out ↔ ∀ vendor ∈ vendors (efiRecords root), ¬ Hides device root own vendor := by
  unfold OffersAll
  rw [probe_eq, List.append_cancel_left_eq]
  refine (filterMap_eq_iff (fun vendor => ?_) _).2.trans ?_
  · exact (probeLoaders_offered toUppercase device root own vendor).1
  · exact forall₂_congr fun vendor _ => (probeLoaders_offered toUppercase device root own vendor).2

end

/-- A volume with shim and GRUB in `\EFI\fedora`. -/
def fedoraVolume : Volume where
  openPath path :=
    if path = cstr16 "\\EFI" then some (.dir [⟨cstr16 "fedora", true, 94⟩])
    else if path = cstr16 "\\EFI\\fedora\\shimx64.efi" ∨ path = cstr16 "\\EFI\\fedora\\grubx64.efi" then some .regular
    else none

/-- GRUB is not offered where shim is Bang; and shim is not where Bang lies deeper in a directory of the same
names. -/
theorem not_offersAll_fedora :
    ¬ OffersAll (fun c => [c.toUpper]) 1 fedoraVolume (some ⟨1, [], cstr16 "\\EFI\\fedora\\shimx64.efi"⟩) [] ∧
      ¬ OffersAll (fun c => [c.toUpper]) 1 fedoraVolume
        (some ⟨1, [], cstr16 "\\backup\\EFI\\fedora\\shimx64.efi"⟩) [] := by
  unfold OffersAll
  rw [probe_eq, probe_eq]
  constructor <;> decide +kernel

end Bang
