/-
Placing a segment (`load_segment` of `src/elf.rs`): the table of the pages that earlier segments
were granted, the walk over a segment's pages that asks for the missing ones, and the copy.
Addresses are natural numbers below 2^64; where the sums of the release build can wrap, they do.
-/
import Bang.Elf.Header
import Bang.Uefi.Firmware

namespace Bang

/-! ## The table of granted pages -/

/-- `ALLOC_PAGES` up to `ALLOC_COUNT`: the runs of pages granted so far, as far as they fit. -/
structure Records where
  runs : List (Nat × Nat)
  fits : runs.length ≤ 32

/-- The table before the first segment. -/
def Records.empty : Records := ⟨[], Nat.zero_le _⟩

/-- Check whether a single page has already been allocated by a prior segment. -/
def pageAllocated (records : Records) (page : Nat) : Bool :=
  records.runs.any fun r =>
    r.2 ≠ 0 ∧ page ≥ r.1 ∧ page < (r.1 + r.2 * pageSize) % 2 ^ 64

/-- Record that pages [base .. base + numPages * 4096) have been allocated. -/
def recordAllocation (records : Records) (base numPages : Nat) : Records :=
  if h : records.runs.length < 32 then
    ⟨records.runs ++ [(base, numPages)], by rw [List.length_append]; exact h⟩
  else records

/-! ## The state of a load -/

/-- A segment, as the loader is asked to place it. -/
structure Segment where
  paddr : UInt64
  memsz : UInt64
  offset : UInt64
  filesz : UInt64
  deriving DecidableEq, Repr

/-- What a load changes: the firmware, the table, and the memory. `entries` and `placed` are what
the model remembers of it: the program headers read, with their offsets, and the segments placed. -/
structure LoadState (σ : Type) where
  firmware : σ
  records : Records
  memory : Mem UInt8
  entries : List (Nat × Phdr)
  placed : List Segment

/-- The state before the first segment. -/
def LoadState.start {σ : Type} (firmware : σ) (memory : Mem UInt8) : LoadState σ :=
  ⟨firmware, .empty, memory, [], []⟩

/-! ## The walk over the pages -/

/-- The inner loop: how many pages from `page` on are free, as far as the next already-allocated
page or the end. -/
def freeRun (records : Records) (limit page run : Nat) : Nat :=
  if page + run * pageSize < limit ∧ ¬ pageAllocated records (page + run * pageSize) then
    freeRun records limit page (run + 1)
  else run
termination_by limit - (page + run * pageSize)
decreasing_by simp only [pageSize] at *; omega

theorem le_freeRun (records : Records) (limit page run : Nat) : run ≤ freeRun records limit page run := by
  induction run using freeRun.induct records limit page with
  | case1 run h ih => rw [freeRun, if_pos h]; omega
  | case2 run h => rw [freeRun, if_neg h]

theorem freeRun_pos {records : Records} {limit page : Nat} (h : page < limit)
    (hfree : ¬ pageAllocated records page) : 0 < freeRun records limit page 0 := by
  rw [freeRun, if_pos (by rw [Nat.zero_mul, Nat.add_zero]; exact ⟨h, hfree⟩)]
  exact le_freeRun records limit page 1

/-- Allocate only the pages up to `limit` that no earlier segment has already claimed; false when
the firmware refuses some. `page` and `limit` are multiples of 4096 below 2^64, so that no sum of
the loop wraps. -/
def pageWalk {σ : Type} (fw : Firmware σ) (limit page : Nat) (s : LoadState σ) : Bool × LoadState σ :=
  if page < limit then
    if ¬ pageAllocated s.records page then
      let run := freeRun s.records limit page 0
      match fw.allocateAt s.firmware page run with
      | (false, f) => (false, { s with firmware := f })
      | (true, f) =>
        pageWalk fw limit (page + run * pageSize)
          { s with firmware := f, records := recordAllocation s.records page run }
    else pageWalk fw limit (page + pageSize) s
  else (true, s)
termination_by limit - page
decreasing_by
  · have := freeRun_pos ‹page < limit› ‹_›
    simp only [pageSize] at *
    omega
  · simp only [pageSize]; omega

/-! ## Placing a segment -/

/-- `paddr & !0xFFF`. -/
def pageBase (paddr : UInt64) : Nat := paddr.toNat / pageSize * pageSize

/-- The pages the segment is computed to take. -/
def numPages (paddr memsz : UInt64) : Nat :=
  let pageOffset := paddr.toNat - pageBase paddr
  let totalSize := (pageOffset + memsz.toNat) % 2 ^ 64
  (totalSize + 4095) % 2 ^ 64 / 4096

/-- `page_base + (num_pages as u64) * 4096`. -/
def pageLimit (paddr memsz : UInt64) : Nat :=
  (pageBase paddr + numPages paddr memsz * pageSize) % 2 ^ 64

/-- The bytes of a segment at its address, and the clear bytes behind them. -/
def storeSegment (paddr memsz filesz : UInt64) (bs : List UInt8) (m : Mem UInt8) : Mem UInt8 :=
  let dest := paddr.toNat
  let m := m.store dest bs
  if memsz > filesz then
    m.store (dest + filesz.toNat) (List.replicate (memsz.toNat - filesz.toNat) 0)
  else m

/-- The copy of the file's bytes. -/
def copySegment (paddr memsz : UInt64) (fileBuf : Buffer) (offset filesz : UInt64) (m : Mem UInt8) : Mem UInt8 :=
  storeSegment paddr memsz filesz ((fileBuf.data.drop offset.toNat).take filesz.toNat) m

/-- Load a PT_LOAD segment: allocate pages at physical address and copy data. False if the segment
is malformed (extends past the file, or its extents overflow) or the firmware refuses its pages. -/
def loadSegment {σ : Type} (fw : Firmware σ) (paddr memsz : UInt64) (fileBuf : Buffer)
    (offset filesz : UInt64) (s : LoadState σ) : Bool × LoadState σ :=
  if filesz > memsz then (false, s)
  -- the file data for this segment must actually be inside the file
  else if ¬ (offset.toNat + filesz.toNat < 2 ^ 64 ∧ offset.toNat + filesz.toNat ≤ fileBuf.size) then
    (false, s)
  else if paddr.toNat + memsz.toNat ≥ 2 ^ 64 then (false, s)
  else
    match pageWalk fw (pageLimit paddr memsz) (pageBase paddr) s with
    | (false, s) => (false, s)
    | (true, s) =>
      (true, { s with
        memory := copySegment paddr memsz fileBuf offset filesz s.memory
        placed := s.placed ++ [⟨paddr, memsz, offset, filesz⟩] })

end Bang
