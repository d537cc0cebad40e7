/-
The buffer of module names over any sequence of calls of `store_name`: what was stored stays, since a
call writes only behind what the earlier ones used, and the last byte is never anything but a terminator,
which is what the calls are handed once the buffer is full.
-/
import Bang.Handoff.Modules

namespace Bang

/-! ## What a call is to store -/

/-- The longest prefix of a name, as it is stored, that fits in `space` bytes with its terminator. -/
structure LongestFitting (name : List UInt16) (space : Nat) (str : List UInt8) : Prop where
  front : str <+: asciiName name
  fits : str = [] ∨ str.length + 1 ≤ space
  longest : ∀ t, t <+: asciiName name → t.length + 1 ≤ space → t.length ≤ str.length

theorem longestFitting_kept (name : List UInt16) (pos : Nat) :
    LongestFitting name (modNamesCap - pos) (keptName name pos) := by
  have hlen : (keptName name pos).length = min (modNamesCap - 1 - pos) (asciiName name).length := List.length_take
  refine ⟨List.take_prefix _ _, ?_, fun t ht hfits => ?_⟩
  · by_cases hfull : pos < modNamesCap
    · exact .inr (by omega)
    · refine .inl (List.eq_nil_of_length_eq_zero ?_)
      omega
  · have := ht.length_le
    omega

theorem zero_notMem_asciiName (name : List UInt16) : 0 ∉ asciiName name := by
  intro h
  obtain ⟨ch, hch, hzero⟩ := List.mem_map.1 h
  have hne : ch ≠ 0 := by simpa using List.all_eq_true.1 List.all_takeWhile ch hch
  unfold asciiOf at hzero
  split at hzero
  · rename_i hlt
    refine hne (UInt16.toNat_inj.1 ?_)
    have hlt : ch.toNat < 128 := hlt
    have hbyte : ch.toUInt8.toNat = 0 := by rw [hzero]; rfl
    rw [UInt16.toNat_toUInt8] at hbyte
    show ch.toNat = 0
    omega
  · exact absurd hzero (by decide)

theorem zero_notMem_keptName (name : List UInt16) (pos : Nat) : 0 ∉ keptName name pos :=
  fun h => zero_notMem_asciiName name (List.mem_of_mem_take h)

/-! ## What stays -/

/-- A string of the used part of the buffer. -/
structure Names.Kept (modNames : Nat) (s : Names) (p : UInt64) (str : List UInt8) : Prop where
  start : modNames ≤ p.toNat
  stop : p.toNat + str.length + 1 ≤ modNames + s.pos
  holds : s.memory.Holds p.toNat (str ++ [0])

/-- What calls change: bytes of the buffer behind what is used, which only grows. -/
structure Names.Extends (modNames : Nat) (s s' : Names) : Prop where
  pos : s.pos ≤ s'.pos
  cap : s'.pos ≤ modNamesCap
  frame : ∀ a, a < modNames + s.pos ∨ modNames + modNamesCap ≤ a → s'.memory a = s.memory a

namespace Names

variable {modNames : Nat} {s s₁ s' : Names} {p : UInt64} {str : List UInt8}

theorem Extends.refl (h : s.pos ≤ modNamesCap) : s.Extends modNames s := ⟨le_refl _, h, fun _ _ => rfl⟩

theorem Extends.trans (h : s.Extends modNames s₁) (h' : s₁.Extends modNames s') : s.Extends modNames s' := by
  refine ⟨le_trans h.pos h'.pos, h'.cap, fun a ha => ?_⟩
  have hpos := h.pos
  rw [h'.frame a (by omega), h.frame a ha]

/-- What is kept stays. -/
theorem Kept.extends (h : s.Kept modNames p str) (he : s.Extends modNames s') : s'.Kept modNames p str := by
  have hpos := he.pos
  have hstop := h.stop
  refine ⟨h.start, by omega, h.holds.congr fun a _ hlt => he.frame a (.inl ?_)⟩
  rw [List.length_append, List.length_singleton] at hlt
  omega

/-- What is kept is read back. -/
theorem Kept.cstr (h : s.Kept modNames p str) (hm : modNames + modNamesCap ≤ 2 ^ 64) (hpos : s.pos ≤ modNamesCap)
    (hzero : 0 ∉ str) : s.memory.NulTerminated p.toNat ∧ s.memory.cstr p.toNat = str := by
  have hstop := h.stop
  refine ⟨⟨str.length, by omega, ?_⟩, (h.holds.cstr_eq hzero (by omega)).2⟩
  simpa using h.holds.right 0 (by simp)

end Names

/-! ## One call -/

/-- How far the buffer is used after a call. -/
def nextPos (name : List UInt16) (pos : Nat) : Nat :=
  if modNamesCap ≤ pos then pos else pos + (keptName name pos).length + 1

/-- A call keeps a string where it says, and leaves alone what was there. -/
theorem storeName_kept {modNames : Nat} (hm : modNames + modNamesCap ≤ 2 ^ 64) (name : List UInt16) {s : Names}
    (h : s.Ok modNames) : ∃ p s', storeName modNames name s = .ok (p, s') ∧ s'.Ok modNames ∧
      s'.pos = nextPos name s.pos ∧ s.Extends modNames s' ∧ s'.Kept modNames p (keptName name s.pos) := by
  obtain ⟨p, s', hstore, -, hok⟩ := storeName_spec hm name h
  refine ⟨p, s', hstore, hok, ?_⟩
  unfold nextPos
  have hlen := length_keptName name s.pos
  by_cases hfull : modNamesCap ≤ s.pos
  · -- the last byte is the terminator of the empty string
    rw [storeName_full modNames name hfull] at hstore
    obtain ⟨hptr, hsame⟩ := Prod.mk.inj (Except.ok.inj hstore)
    subst hptr hsame
    have hp := toNat_names hm (show modNamesCap - 1 < modNamesCap by decide)
    have hpos : s.pos = modNamesCap := le_antisymm h.pos hfull
    have hnone : keptName name s.pos = [] := List.eq_nil_of_length_eq_zero (by omega)
    refine ⟨(if_pos hfull).symm, .refl h.pos, by omega, ?_, ?_⟩
    · rw [hp, hnone, hpos]
      exact le_refl _
    · rw [hp, hnone]
      exact (Mem.holds_replicate _ _ 1 _).2 fun i hi => by rw [show i = 0 by omega]; exact h.last
  · rw [storeName_eq modNames name (Nat.not_le.1 hfull)] at hstore
    obtain ⟨hptr, hnext⟩ := Prod.mk.inj (Except.ok.inj hstore)
    subst hptr hnext
    have hp := toNat_names hm (Nat.not_le.1 hfull)
    refine ⟨(if_neg hfull).symm, ⟨by simp only; omega, hok.pos, fun a ha => ?_⟩, by omega, ?_, ?_⟩
    · rcases ha with ha | ha
      · exact Mem.store_below _ _ ha
      · apply Mem.store_above
        rw [List.length_append, List.length_singleton]
        simp only [modNamesCap] at *
        omega
    · rw [hp]
      simp only
      omega
    · rw [hp]
      exact Mem.holds_store _ _ _

/-! ## Runs -/

/-- What is kept of names that are stored one after another. -/
def keptNames : List (List UInt16) → (pos : Nat) → List (List UInt8)
  | [], _ => []
  | name :: names, pos => keptName name pos :: keptNames names (nextPos name pos)

theorem zero_notMem_keptNames (names : List (List UInt16)) : ∀ pos, ∀ str ∈ keptNames names pos, 0 ∉ str := by
  induction names with
  | nil =>
    intro pos str hstr
    cases hstr
  | cons name names ih =>
    intro pos str hstr
    rcases List.mem_cons.1 hstr with rfl | hstr
    · exact zero_notMem_keptName name pos
    · exact ih _ str hstr

/-- Calls of `store_name` one after another. -/
def storeNames (modNames : Nat) : List (List UInt16) → Names → Except Stop (List UInt64 × Names)
  | [], s => .ok ([], s)
  | name :: names, s => do
    let (p, s) ← storeName modNames name s
    let (ps, s) ← storeNames modNames names s
    pure (p :: ps, s)

theorem storeNames_extends {modNames : Nat} (hm : modNames + modNamesCap ≤ 2 ^ 64) (names : List (List UInt16)) :
    ∀ s : Names, s.Ok modNames → ∃ ps s', storeNames modNames names s = .ok (ps, s') ∧ s'.Ok modNames ∧
      s.Extends modNames s' := by
  induction names with
  | nil =>
    intro s h
    exact ⟨[], s, rfl, h, .refl h.pos⟩
  | cons name names ih =>
    intro s h
    obtain ⟨p, s₁, hstore, hok₁, -, hext₁, -⟩ := storeName_kept hm name h
    obtain ⟨ps, s', hrest, hok', hext'⟩ := ih s₁ hok₁
    refine ⟨p :: ps, s', ?_, hok', hext₁.trans hext'⟩
    rw [storeNames, hstore]
    show (storeNames modNames names s₁ >>= _) = _
    rw [hrest]
    rfl

/-- In any sequence of calls on the clear buffer, the call for `name` is handed the address of a string of the
buffer: the longest prefix of the name that fits in what the earlier calls left. It is still there after
the later calls. No call writes outside the buffer, and the position stays inside. -/
theorem storeNames_spec {modNames : Nat} (hm : modNames + modNamesCap ≤ 2 ^ 64) (m : Mem UInt8)
    (hclear : ∀ i < modNamesCap, m (modNames + i) = 0) (earlier : List (List UInt16)) (name : List UInt16)
    (later : List (List UInt16)) :
    ∃ ps₁ s₁ p s₂ ps₂ s₃ str, storeNames modNames earlier ⟨m, 0⟩ = .ok (ps₁, s₁) ∧
      storeName modNames name s₁ = .ok (p, s₂) ∧ storeNames modNames later s₂ = .ok (ps₂, s₃) ∧
      LongestFitting name (modNamesCap - s₁.pos) str ∧
      (modNames ≤ p.toNat ∧ p.toNat + str.length < modNames + modNamesCap) ∧
      (s₂.memory.NulTerminated p.toNat ∧ s₂.memory.cstr p.toNat = str) ∧
      (s₃.memory.NulTerminated p.toNat ∧ s₃.memory.cstr p.toNat = str) ∧
      (s₁.pos ≤ modNamesCap ∧ s₂.pos ≤ modNamesCap ∧ s₃.pos ≤ modNamesCap) ∧
      ∀ a, a < modNames ∨ modNames + modNamesCap ≤ a → s₃.memory a = m a := by
  have hstart : (⟨m, 0⟩ : Names).Ok modNames := ⟨hclear _ (by decide), Nat.zero_le _⟩
  obtain ⟨ps₁, s₁, hrun₁, hok₁, hext₁⟩ := storeNames_extends hm earlier _ hstart
  obtain ⟨p, s₂, hrun₂, hok₂, -, hext₂, hkept₂⟩ := storeName_kept hm name hok₁
  obtain ⟨ps₂, s₃, hrun₃, hok₃, hext₃⟩ := storeNames_extends hm later s₂ hok₂
  have hzero := zero_notMem_keptName name s₁.pos
  have hstop := hkept₂.stop
  have hcap := hok₂.pos
  refine ⟨ps₁, s₁, p, s₂, ps₂, s₃, keptName name s₁.pos, hrun₁, hrun₂, hrun₃, longestFitting_kept name s₁.pos,
    ⟨hkept₂.start, by omega⟩, hkept₂.cstr hm hok₂.pos hzero, (hkept₂.extends hext₃).cstr hm hok₃.pos hzero,
    ⟨hok₁.pos, hok₂.pos, hok₃.pos⟩, fun a ha => ?_⟩
  exact ((hext₁.trans hext₂).trans hext₃).frame a ha

/-- `init` stored between two other names, the first a letter that is not ASCII. -/
theorem storeNames_init : ∃ ps₁ s₁ p s₂ ps₂ s₃, storeNames 0x1000 [[0xE9]] ⟨fun _ => 0, 0⟩ = .ok (ps₁, s₁) ∧
    storeName 0x1000 [0x69, 0x6E, 0x69, 0x74, 0] s₁ = .ok (p, s₂) ∧
    storeNames 0x1000 [[0x66, 0x73, 0]] s₂ = .ok (ps₂, s₃) ∧ s₃.memory.cstr p.toNat = [0x69, 0x6E, 0x69, 0x74] := by
  obtain ⟨ps₁, s₁, p, s₂, ps₂, s₃, str, h₁, h₂, h₃, hstr, -, -, ⟨-, hcstr⟩, -⟩ :=
    @storeNames_spec 0x1000 (by decide) (fun _ => 0) (fun _ _ => rfl) [[0xE9]] [0x69, 0x6E, 0x69, 0x74, 0]
      [[0x66, 0x73, 0]]
  refine ⟨ps₁, s₁, p, s₂, ps₂, s₃, h₁, h₂, h₃, hcstr.trans ?_⟩
  have hpos : (storeNames 0x1000 [[0xE9]] ⟨fun _ => 0, 0⟩).map (fun r => r.2.pos) = .ok 2 := by decide
  rw [h₁] at hpos
  have hpos : s₁.pos = 2 := Except.ok.inj hpos
  rw [hpos] at hstr
  exact hstr.front.eq_of_length_le (hstr.longest _ (List.prefix_refl _) (by decide))

end Bang
