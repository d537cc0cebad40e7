/-
Bang does not offer itself: a loader under `\EFI` is compared with the image Bang was loaded from, on
its volume and without regard to case. The path of Windows is not, so that Bang is offered when it
has taken the place of Windows.
-/
import Bang.Discover.Examined

namespace Bang

section
variable (toUppercase : Char → Str) (device d : Handle) (root : Volume) (p : CString16)

/-! ## What is pushed -/

/-- A file is Bang's own: on its volume, and of its name. -/
def Found.IsOwn (device : Handle) (path : CString16) (found : Found) : Prop :=
  found.device = device ∧ SameName found.path path

theorem sameFile_of_sameName {p q : CString16} (h : SameName q p) : sameFile p q = true := by
  have hsame : toAsciiUppercase q = toAsciiUppercase p := h
  unfold sameFile
  rw [hsame]
  exact List.isSuffixOf_iff_suffix.2 List.suffix_rfl

/-- The loader of a directory is not Bang. -/
theorem probeLoaders_not_own {vendor : CString16} (names : List CString16) {found : Found}
    (h : probeLoaders toUppercase device root (some (d, p)) vendor names = some found) :
    ¬ found.IsOwn d p := by
  induction names with
  | nil => cases h
  | cons loader rest ih =>
    unfold probeLoaders at h
    simp only at h
    split at h
    · exact ih h
    · split at h
      · cases h
      · rename_i hown
        cases h
        rintro ⟨hdevice, hname⟩
        refine hown ?_
        simp only [Option.any_some, Bool.and_eq_true, decide_eq_true_eq]
        exact ⟨hdevice.symm, sameFile_of_sameName hname⟩

/-- What a volume adds: Windows where it is there, and nothing else that is Bang. -/
theorem probe_spec (out : List Found) :
    ∃ added, probe toUppercase device root (some (d, p)) out = out ++ (windowsFound device root ++ added) ∧
      ∀ f ∈ added, ¬ f.IsOwn d p := by
  refine ⟨_, (probe_eq toUppercase device root (some (d, p)) out).trans (List.append_assoc _ _ _), fun f hf => ?_⟩
  obtain ⟨vendor, -, hfound⟩ := List.mem_filterMap.1 hf
  exact probeLoaders_not_own toUppercase device d root p loaders hfound

/-- Bang is among what is found once a volume was looked at if it was before, or if it is Windows there. -/
theorem exists_own_probe (out : List Found) :
    (∃ f ∈ probe toUppercase device root (some (d, p)) out, f.IsOwn d p) ↔
      (∃ f ∈ out, f.IsOwn d p) ∨ (device = d ∧ SameName windows p ∧ root.exists windows = true) := by
  obtain ⟨added, hprobe, hadded⟩ := probe_spec toUppercase device d root p out
  rw [hprobe]
  constructor
  · rintro ⟨f, hf, hown⟩
    rcases List.mem_append.1 hf with hf | hf
    · exact .inl ⟨f, hf, hown⟩
    · rcases List.mem_append.1 hf with hf | hf
      · unfold windowsFound at hf
        split at hf
        · rename_i hexists
          obtain rfl := List.mem_singleton.1 hf
          exact .inr ⟨hown.1, hown.2, hexists⟩
        · cases hf
      · exact absurd hown (hadded f hf)
  · rintro (⟨f, hf, hown⟩ | ⟨hdevice, hname, hexists⟩)
    · exact ⟨f, List.mem_append_left _ hf, hown⟩
    · refine ⟨⟨"Windows Boot Manager".toList, device, windows⟩, ?_, hdevice, hname⟩
      rw [windowsFound, if_pos hexists]
      exact List.mem_append_right _ (List.mem_append_left _ (List.mem_singleton_self _))

/-! ## The scan -/

/-- Bang is found on a list of volumes where its own is listed, handed over, and has Windows in its place. -/
theorem exists_own_volumes (disks : Disks) (handles : List Handle) (out : List Found) :
    (∃ f ∈ handles.foldl (fun out device =>
        match disks.volume device with
        | none => out
        | some root => probe toUppercase device root (some (d, p)) out) out, f.IsOwn d p) ↔
      (∃ f ∈ out, f.IsOwn d p) ∨ (d ∈ handles ∧ SameName windows p ∧
        ∃ root, disks.volume d = some root ∧ root.exists windows = true) := by
  induction handles generalizing out with
  | nil => simp
  | cons device rest ih =>
    rw [List.foldl_cons, ih]
    constructor
    · rintro (hout | ⟨hd, hthere⟩)
      · split at hout
        · exact .inl hout
        · rename_i root hroot
          rcases (exists_own_probe toUppercase _ d _ p _).1 hout with hout | ⟨rfl, hname, hexists⟩
          · exact .inl hout
          · exact .inr ⟨List.mem_cons_self, hname, root, hroot, hexists⟩
      · exact .inr ⟨List.mem_cons_of_mem _ hd, hthere⟩
    · rintro (hout | ⟨hd, hname, root, hroot, hexists⟩)
      · refine .inl ?_
        split
        · exact hout
        · exact (exists_own_probe toUppercase _ d _ p _).2 (.inl hout)
      · rcases List.mem_cons.1 hd with rfl | hd
        · refine .inl ?_
          rw [hroot]
          exact (exists_own_probe toUppercase _ d _ p _).2 (.inr ⟨rfl, hname, hexists⟩)
        · exact .inr ⟨hd, hname, root, hroot, hexists⟩

end

/-- Bang does not offer itself, unless its volume is handed over and has Bang where Windows would be. -/
theorem neverOwn_iff (toUppercase : Char → Str) (disks : Disks) (d : Handle) (p : CString16) :
    (∀ f ∈ scan toUppercase disks (some ⟨some d, some p⟩), ¬ f.IsOwn d p) ↔
      ¬ ((∃ handles, disks.handles = some handles ∧ d ∈ handles) ∧ SameName windows p ∧
        ∃ root, disks.volume d = some root ∧ root.exists windows = true) := by
  rw [← not_iff_not, not_not, scan]
  cases hhandles : disks.handles with
  | none => simp
  | some handles =>
    have hscan := exists_own_volumes toUppercase d p disks handles []
    simp only [ownImage, bind, Option.bind]
    constructor
    · intro hnot
      push Not at hnot
      rcases hscan.1 hnot with ⟨f, hf, -⟩ | ⟨hd, hthere⟩
      · cases hf
      · exact ⟨⟨handles, rfl, hd⟩, hthere⟩
    · rintro ⟨⟨listed, hlisted, hd⟩, hthere⟩ hnone
      cases hlisted
      obtain ⟨f, hf, hown⟩ := hscan.2 (.inr ⟨hd, hthere⟩)
      exact hnone f hf hown

/-- A volume on which Bang has taken the place of Windows. -/
def takenPlace : Disks :=
  ⟨some [1], fun _ => some ⟨fun path => if path = windows then some .regular else none⟩⟩

/-- Bang at the path of Windows is offered as Windows. -/
theorem not_neverOwn_windows :
    ¬ ∀ f ∈ scan (fun c => [c.toUpper]) takenPlace (some ⟨some 1, some windows⟩), ¬ f.IsOwn 1 windows := by
  intro hnone
  exact hnone ⟨"Windows Boot Manager".toList, 1, windows⟩ (by decide +kernel) ⟨rfl, rfl⟩

end Bang
