/-
Machines that run what their memory holds, over any type of states and of instructions: encodings of
instructions as bytes, a way in which a machine may fetch and execute them, and the rule for straight-line
code, which is executed one instruction after another as long as none of them touches what is still to come.
-/
import Bang.Memory.Cells
import Mathlib.Logic.Relation

namespace Machine

/-! ## Encodings -/

/-- How instructions are written as bytes, and read back from a window of bytes at most. -/
structure Encoding (ι : Type) where
  encode : ι → List UInt8
  decode : List UInt8 → Option (ι × Nat)
  window : Nat
  short : ∀ i, (encode i).length ≤ window
  decode_encode : ∀ i rest, decode (encode i ++ rest) = some (i, (encode i).length)

namespace Encoding

variable {ι : Type} (e : Encoding ι)

/-- Instructions one behind the other. -/
def assemble (code : List ι) : List UInt8 := code.flatMap e.encode

@[simp] theorem assemble_nil : e.assemble [] = [] := rfl

theorem assemble_cons (i : ι) (code : List ι) : e.assemble (i :: code) = e.encode i ++ e.assemble code :=
  List.flatMap_cons

theorem assemble_append (code code' : List ι) : e.assemble (code ++ code') = e.assemble code ++ e.assemble code' :=
  List.flatMap_append

/-- The bytes that some instructions take. -/
def size (code : List ι) : Nat := (e.assemble code).length

@[simp] theorem size_nil : e.size [] = 0 := rfl

theorem size_cons (i : ι) (code : List ι) : e.size (i :: code) = (e.encode i).length + e.size code := by
  rw [size, assemble_cons, List.length_append, size]

theorem size_append (code code' : List ι) : e.size (code ++ code') = e.size code + e.size code' := by
  rw [size, assemble_append, List.length_append, size, size]

theorem size_le (code : List ι) : e.size code ≤ e.window * code.length := by
  induction code with
  | nil => exact Nat.le_refl 0
  | cons i code ih =>
    have := e.short i
    rw [size_cons, List.length_cons, Nat.mul_succ]
    omega

/-- The instruction at an address, and its length. -/
def fetch (m : Mem UInt8) (a : Nat) : Option (ι × Nat) := e.decode (m.load a e.window)

/-- An instruction that memory holds is fetched, whatever follows it. -/
theorem fetch_eq {m : Mem UInt8} {a : Nat} {i : ι} (h : m.Holds a (e.encode i)) :
    e.fetch m a = some (i, (e.encode i).length) := by
  have hload : m.load a e.window =
      e.encode i ++ m.load (a + (e.encode i).length) (e.window - (e.encode i).length) := by
    have hshort := e.short i
    apply List.ext_getElem (by simp; omega)
    intro k hk hk'
    by_cases hin : k < (e.encode i).length
    · rw [List.getElem_append_left hin, ← h k hin]
      simp [Mem.load]
    · rw [List.getElem_append_right (by omega)]
      simp only [Mem.load, List.getElem_map, List.getElem_range]
      congr 1
      omega
  rw [fetch, hload, e.decode_encode]

end Encoding

/-! ## Ways to run -/

/-- A way in which a machine runs: how it reads instructions, where its memory and the address of the next
instruction are, and what an instruction does once that address is behind it. -/
structure Way (σ ι : Type) where
  encoding : Encoding ι
  memory : σ → Mem UInt8
  counter : σ → Nat
  goto : Nat → σ → σ
  exec : ι → σ → Option σ
  counter_goto : ∀ a s, counter (goto a s) = a
  memory_goto : ∀ a s, memory (goto a s) = memory s

namespace Way

variable {σ ι : Type} (w : Way σ ι)

/-- The next instruction; `none` is a fault. -/
def step (s : σ) : Option σ :=
  (w.encoding.fetch (w.memory s) (w.counter s)).bind fun (i, n) => w.exec i (w.goto (w.counter s + n) s)

/-- The code that is next in memory. -/
def CodeAt (s : σ) (code : List ι) : Prop := (w.memory s).Holds (w.counter s) (w.encoding.assemble code)

/-- Instructions executed one after another, without a look at memory. -/
def execAll : List ι → σ → Option σ
  | [], s => some s
  | i :: code, s => (w.exec i (w.goto (w.counter s + (w.encoding.encode i).length) s)).bind (execAll code)

/-- An instruction that is in memory is the next step. -/
theorem step_eq {s : σ} {i : ι} {code : List ι} (h : w.CodeAt s (i :: code)) :
    w.step s = w.exec i (w.goto (w.counter s + (w.encoding.encode i).length) s) := by
  unfold CodeAt at h
  rw [Encoding.assemble_cons] at h
  rw [step, w.encoding.fetch_eq h.left]
  rfl

/-- What an instruction keeps that does not jump, under an invariant of the machine: the invariant, the
address of the next instruction, and the memory in `[lo, hi)`. -/
def Straight (inv : σ → Prop) (lo hi : Nat) (i : ι) : Prop :=
  ∀ s s', inv s → w.exec i s = some s' →
    inv s' ∧ w.counter s' = w.counter s ∧ ∀ a, lo ≤ a → a < hi → w.memory s' a = w.memory s a

/-- The rule for straight-line code that is inside `[lo, hi)`, on a machine that runs this way while `inv`
holds: it is executed, and what follows it is next. -/
theorem reaches_execAll {step : σ → Option σ} {inv : σ → Prop} (hstep : ∀ s, inv s → step s = w.step s)
    (hgoto : ∀ a s, inv s → inv (w.goto a s)) {lo hi : Nat} (code : List ι) :
    ∀ s s' rest, (∀ i ∈ code, w.Straight inv lo hi i) → inv s → w.CodeAt s (code ++ rest) →
      lo ≤ w.counter s → w.counter s + w.encoding.size (code ++ rest) ≤ hi → w.execAll code s = some s' →
      Relation.ReflTransGen (fun s s' => step s = some s') s s' ∧ inv s' ∧ w.CodeAt s' rest ∧
        w.counter s' = w.counter s + w.encoding.size code := by
  induction code with
  | nil =>
    intro s s' rest _ hinv hcode _ _ h
    cases h
    exact ⟨.refl, hinv, hcode, rfl⟩
  | cons i code ih =>
    intro s s' rest hstraight hinv hcode hlo hhi h
    obtain ⟨s₁, hexec, h⟩ := Option.bind_eq_some_iff.1 h
    obtain ⟨hinv₁, hat, hsame⟩ := hstraight i List.mem_cons_self _ _ (hgoto _ _ hinv) hexec
    rw [w.counter_goto] at hat
    rw [List.cons_append, Encoding.size_cons] at hhi
    -- the rest of the code is in `[lo, hi)`, where memory is as it was
    have hcode₁ : w.CodeAt s₁ (code ++ rest) := by
      have hrest : w.CodeAt s (i :: (code ++ rest)) := hcode
      unfold CodeAt at hrest ⊢
      rw [Encoding.assemble_cons] at hrest
      rw [hat]
      refine hrest.right.congr fun a hle hlt => ?_
      rw [hsame a (by omega) (by unfold Encoding.size at hhi; omega), w.memory_goto]
    obtain ⟨hreach, hinv', hcode', hat'⟩ := ih s₁ s' rest (fun j hj => hstraight j (List.mem_cons_of_mem _ hj)) hinv₁
      hcode₁ (by omega) (by omega) h
    refine ⟨.head ?_ hreach, hinv', hcode', by rw [hat', hat, Encoding.size_cons]; omega⟩
    rw [hstep s hinv, w.step_eq hcode]
    exact hexec

end Way

end Machine
