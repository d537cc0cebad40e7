/-
What the merge adds to the configured entries: for each path and volume that is found, one entry,
unless a configured entry names the path with that volume or with none. An entry with no volume
means Bang's own, but to the merge it stands for every volume, and paths are compared letter for
letter, where a volume does not tell the case of one.
-/
import Bang.Menu.Offered
import Mathlib.Data.List.Induction
import Mathlib.Data.List.Pairwise

namespace Bang

/-! ## What is added -/

/-- The entry of a loader that was found. -/
def Found.entry (found : Found) : Entry := ⟨found.title, .chainload found.path (some found.device)⟩

/-- What the merge adds to the entries. -/
structure Added (entries : List Entry) (scan : List Found) (added : List Found) : Prop where
  merged : scan.foldl offer entries = entries ++ added.map Found.entry
  found : ∀ f ∈ added, f ∈ scan ∧ already entries f = false
  covers : ∀ f ∈ scan, already entries f = false → ∃ a ∈ added, a.path = f.path ∧ a.device = f.device
  distinct : added.Pairwise fun a b => ¬ (a.path = b.path ∧ a.device = b.device)

/-- A loader is among added entries when one of them has its path and its volume. -/
theorem already_added (entries : List Entry) (added : List Found) (f : Found) :
    already (entries ++ added.map Found.entry) f =
      (already entries f || added.any fun a => a.path = f.path ∧ a.device = f.device) := by
  unfold already
  rw [List.any_append, List.any_map]
  congr 1
  refine congrArg (added.any ·) (funext fun a => ?_)
  simp [Found.entry]

theorem exists_added (entries : List Entry) (scan : List Found) : ∃ added, Added entries scan added := by
  induction scan using List.reverseRecOn with
  | nil =>
    refine ⟨[], (List.append_nil _).symm, ?_, ?_, .nil⟩
    · intro f hf; cases hf
    · intro f hf; cases hf
  | append_singleton scan f ih =>
    obtain ⟨added, h⟩ := ih
    have hstep : (scan ++ [f]).foldl offer entries = offer (entries ++ added.map Found.entry) f := by
      rw [List.foldl_append, h.merged]
      rfl
    rcases hal : already (entries ++ added.map Found.entry) f with _ | _
    · have hboth := already_added entries added f
      rw [hal] at hboth
      obtain ⟨hconfigured, hnone⟩ := Bool.or_eq_false_iff.1 hboth.symm
      refine ⟨added ++ [f], ?_, ?_, ?_, ?_⟩
      · rw [hstep, offer, if_neg (by rw [hal]; decide), List.map_append, List.append_assoc]
        rfl
      · intro g hg
        rcases List.mem_append.1 hg with hg | hg
        · exact ⟨List.mem_append_left _ (h.found g hg).1, (h.found g hg).2⟩
        · rw [List.mem_singleton.1 hg]
          exact ⟨List.mem_append_right _ (List.mem_singleton_self f), hconfigured⟩
      · intro g hg hnot
        rcases List.mem_append.1 hg with hg | hg
        · obtain ⟨a, ha, hsame⟩ := h.covers g hg hnot
          exact ⟨a, List.mem_append_left _ ha, hsame⟩
        · rw [List.mem_singleton.1 hg]
          exact ⟨f, List.mem_append_right _ (List.mem_singleton_self f), rfl, rfl⟩
      · rw [List.pairwise_append]
        refine ⟨h.distinct, List.pairwise_singleton .., fun a ha b hb => ?_⟩
        rw [List.mem_singleton.1 hb]
        simpa using List.any_eq_false.1 hnone a ha
    · refine ⟨added, ?_, ?_, ?_, h.distinct⟩
      · rw [hstep, offer, if_pos hal]
      · exact fun g hg => ⟨List.mem_append_left _ (h.found g hg).1, (h.found g hg).2⟩
      · intro g hg hnot
        rcases List.mem_append.1 hg with hg | hg
        · exact h.covers g hg hnot
        · rw [List.mem_singleton.1 hg] at hnot ⊢
          rw [already_added, hnot, Bool.false_or, List.any_eq_true] at hal
          obtain ⟨a, ha, hsame⟩ := hal
          exact ⟨a, ha, of_decide_eq_true hsame⟩

theorem Added.mem_iff {entries : List Entry} {scan added : List Found} (h : Added entries scan added) {e : Entry} :
    e ∈ scan.foldl offer entries ↔ e ∈ entries ∨ ∃ a ∈ added, a.entry = e := by
  rw [h.merged, List.mem_append, List.mem_map]

/-! ## What is left out -/

/-- The volume a file is started from (`full_path` of `src/chain.rs`): Bang's own, if none is given. -/
def chainDevice (own : Handle) (device : Option Handle) : Handle := device.getD own

/-- An entry that chainloads the path of a loader on its volume. -/
def Chainloads (own : Handle) (found : Found) (e : Entry) : Prop :=
  ∃ device, e.target = .chainload found.path device ∧ chainDevice own device = found.device

/-- A loader is left out of the menu only if an entry already in the list chainloads it. -/
def NoneLost (own : Handle) (entries : List Entry) (scan : List Found) : Prop :=
  ∀ front found rest, scan = front ++ found :: rest →
    offer (front.foldl offer entries) found = front.foldl offer entries →
      ∃ e ∈ front.foldl offer entries, Chainloads own found e

theorem already_iff {entries : List Entry} {found : Found} : already entries found = true ↔
    ∃ e ∈ entries, e.target = .chainload found.path none ∨ e.target = .chainload found.path (some found.device) := by
  unfold already
  rw [List.any_eq_true]
  refine exists_congr fun e => and_congr_right fun _ => ?_
  rcases e.target with ⟨k, m⟩ | ⟨path, _ | device⟩ | ⟨k, i, c⟩ <;> simp

/-- A loader is left out when it is among the entries already. -/
theorem offer_eq_iff {entries : List Entry} {found : Found} :
    offer entries found = entries ↔ already entries found = true := by
  unfold offer
  split
  · rename_i h
    exact iff_of_true rfl h
  · rename_i h
    refine iff_of_false (fun heq => ?_) h
    have hlen := congrArg List.length heq
    rw [List.length_append, List.length_singleton] at hlen
    omega

/-- No loader is lost exactly when each one whose path an entry without a volume names is on Bang's own
volume, or named with its volume as well. -/
theorem noneLost_iff (own : Handle) (entries : List Entry) (scan : List Found) :
    NoneLost own entries scan ↔
      ∀ found ∈ scan, (∃ e ∈ entries, e.target = .chainload found.path none) →
        found.device = own ∨ ∃ e ∈ entries, e.target = .chainload found.path (some found.device) := by
  constructor
  · intro h found hfound hnamed
    obtain ⟨e, he, htarget⟩ := hnamed
    obtain ⟨front, rest, rfl⟩ := List.append_of_mem hfound
    obtain ⟨added, hadded⟩ := exists_added entries front
    have hleft : already (front.foldl offer entries) found = true :=
      already_iff.2 ⟨e, hadded.mem_iff.2 (.inl he), .inl htarget⟩
    obtain ⟨x, hx, device, hxtarget, hvolume⟩ := h front found rest rfl (offer_eq_iff.2 hleft)
    rcases hadded.mem_iff.1 hx with hx | ⟨a, ha, rfl⟩
    · rcases device with _ | device
      · exact .inl hvolume.symm
      · have hsame : device = found.device := hvolume
        exact .inr ⟨x, hx, hsame ▸ hxtarget⟩
    · -- an entry that was added has a path no entry without a volume names
      injection hxtarget with hpath _
      have hnone := (hadded.found a ha).2
      rw [already_iff.2 ⟨e, he, .inl (hpath ▸ htarget)⟩] at hnone
      cases hnone
  · intro h front found rest hscan hleft
    obtain ⟨added, hadded⟩ := exists_added entries front
    obtain ⟨e, he, htarget⟩ := already_iff.1 (offer_eq_iff.1 hleft)
    have hmem : found ∈ scan := hscan ▸ List.mem_append_right _ (List.mem_cons_self ..)
    rcases htarget with htarget | htarget
    · rcases hadded.mem_iff.1 he with hconfigured | ⟨a, -, rfl⟩
      · rcases h found hmem ⟨e, hconfigured, htarget⟩ with hown | ⟨e', he', htarget'⟩
        · exact ⟨e, he, none, htarget, hown.symm⟩
        · exact ⟨e', hadded.mem_iff.2 (.inl he'), some found.device, htarget', rfl⟩
      · injection htarget with _ hvolume
        cases hvolume
    · exact ⟨e, he, some found.device, htarget, rfl⟩

/-- A loader of another volume than Bang's own, with the path of a configured one. -/
theorem not_noneLost_otherVolume :
    ¬ NoneLost 1 (parse ucs2 "entry Fedora\n  chainload \\EFI\\fedora\\shimx64.efi\n".toList).entries
      [⟨"Fedora".toList, 2, cstr16 "\\EFI\\fedora\\shimx64.efi"⟩] := by
  have hparse : (parse ucs2 "entry Fedora\n  chainload \\EFI\\fedora\\shimx64.efi\n".toList).entries =
      [⟨"Fedora".toList, .chainload (cstr16 "\\EFI\\fedora\\shimx64.efi") none⟩] := by decide +kernel
  rw [hparse, noneLost_iff]
  intro h
  rcases h _ (List.mem_singleton_self _) ⟨_, List.mem_singleton_self _, rfl⟩ with hown | ⟨e, he, htarget⟩
  · cases hown
  · rw [List.mem_singleton.1 he] at htarget
    cases htarget

/-! ## What is there twice -/

/-- Two chainload entries of one file: on one volume, under names that differ in case only. -/
def SameFile (own : Handle) (e e' : Entry) : Prop :=
  ∃ p d q d', e.target = .chainload p d ∧ e'.target = .chainload q d' ∧
    chainDevice own d = chainDevice own d' ∧ SameName p q

/-- No entry that is added is of the file of a configured one or of another that is added. -/
def NoneTwice (own : Handle) (entries : List Entry) (scan : List Found) : Prop :=
  (∀ a ∈ (scan.foldl offer entries).drop entries.length, ∀ e ∈ entries, ¬ SameFile own e a) ∧
    ((scan.foldl offer entries).drop entries.length).Pairwise fun a b => ¬ SameFile own a b

theorem sameFile_entry_iff {own : Handle} {a b : Found} :
    SameFile own a.entry b.entry ↔ a.device = b.device ∧ SameName a.path b.path := by
  constructor
  · rintro ⟨p, d, q, d', hp, hq, hvolume, hname⟩
    cases hp
    cases hq
    exact ⟨hvolume, hname⟩
  · rintro ⟨hvolume, hname⟩
    exact ⟨_, _, _, _, rfl, rfl, hvolume, hname⟩

/-- The file of a loader is up to its volume and its path. -/
theorem sameFile_congr {own : Handle} {e : Entry} {a b : Found} (hpath : a.path = b.path)
    (hdevice : a.device = b.device) : SameFile own e a.entry ↔ SameFile own e b.entry := by
  unfold SameFile Found.entry
  rw [hpath, hdevice]

/-- Nothing is there twice exactly when the names that mean one file are spelt alike: those of a loader
and of a configured entry, and those of two loaders. -/
theorem noneTwice_iff (own : Handle) (entries : List Entry) (scan : List Found) :
    NoneTwice own entries scan ↔
      (∀ f ∈ scan, already entries f = false → ∀ e ∈ entries, ¬ SameFile own e f.entry) ∧
        ∀ f ∈ scan, ∀ g ∈ scan, already entries f = false → already entries g = false →
          f.device = g.device → SameName f.path g.path → f.path = g.path := by
  obtain ⟨added, h⟩ := exists_added entries scan
  unfold NoneTwice
  rw [h.merged, List.drop_left, List.pairwise_map]
  simp only [List.forall_mem_map, sameFile_entry_iff]
  constructor
  · rintro ⟨hconfigured, hpairs⟩
    refine ⟨fun f hf hnot e he hsame => ?_, fun f hf g hg hnot hnot' hdevice hname => ?_⟩
    · obtain ⟨a, ha, hpath, hdevice⟩ := h.covers f hf hnot
      exact hconfigured a ha e he ((sameFile_congr hpath hdevice).2 hsame)
    · obtain ⟨a, ha, hpath, hadevice⟩ := h.covers f hf hnot
      obtain ⟨b, hb, hpath', hbdevice⟩ := h.covers g hg hnot'
      by_contra hne
      have hab : a ≠ b := by
        rintro rfl
        exact hne (hpath.symm.trans hpath')
      have hsymm : Std.Symm fun a b : Found => ¬ (a.device = b.device ∧ SameName a.path b.path) :=
        ⟨fun _ _ hno hsame => hno ⟨hsame.1.symm, hsame.2.symm⟩⟩
      refine hpairs.forall ha hb hab ⟨?_, ?_⟩
      · rw [hadevice, hbdevice, hdevice]
      · rw [hpath, hpath']
        exact hname
  · rintro ⟨hconfigured, hnames⟩
    refine ⟨fun a ha e he => hconfigured a (h.found a ha).1 (h.found a ha).2 e he, ?_⟩
    refine h.distinct.imp_of_mem fun {a b} ha hb hne hsame => hne ⟨?_, hsame.1⟩
    exact hnames a (h.found a ha).1 b (h.found b hb).1 (h.found a ha).2 (h.found b hb).2 hsame.1 hsame.2

/-- Windows, configured in small letters and found under the names on the disk. -/
theorem not_noneTwice_smallLetters :
    ¬ NoneTwice 1 (parse ucs2 "entry Windows\n  chainload \\efi\\microsoft\\boot\\bootmgfw.efi\n".toList).entries
      [⟨"Windows Boot Manager".toList, 1, cstr16 "\\EFI\\Microsoft\\Boot\\bootmgfw.efi"⟩] := by
  have hparse : (parse ucs2 "entry Windows\n  chainload \\efi\\microsoft\\boot\\bootmgfw.efi\n".toList).entries =
      [⟨"Windows".toList, .chainload (cstr16 "\\efi\\microsoft\\boot\\bootmgfw.efi") none⟩] := by decide +kernel
  rw [hparse, noneTwice_iff]
  rintro ⟨hconfigured, -⟩
  refine hconfigured _ (List.mem_singleton_self _) (by decide) _ (List.mem_singleton_self _) ?_
  exact ⟨_, _, _, _, rfl, rfl, rfl, by decide⟩

end Bang
