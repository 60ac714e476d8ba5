import Mathlib.Data.List.Infix
import Mathlib.Data.UInt

/-!
# Nal — NAL classification and the start-code scan

`isVclNal`, `isIdrNal` and `findStartCode` of `h264_tcp_source.cpp`. A `std::vector<uint8_t>` is a
`List UInt8`. `findStartCode` is the code's indexed `for` loop; `firstStartCode` is the same scan
read as a recursion on the list, which is how every later proof uses it
(`findStartCode_eq_firstStartCode`).
-/

namespace PublishH264

/-- `kMaxNalSize`: the largest NAL the length-prefixed reader accepts (4 MiB). -/
def kMaxNalSize : Nat := 4 * 1024 * 1024

/-- `kReadChunkSize`: the buffer size of one Annex-B `recv`. -/
def kReadChunkSize : Nat := 64 * 1024

/-- `isVclNal`: NAL types 1 (non-IDR slice) and 5 (IDR slice). -/
def isVclNal : List UInt8 → Bool
  | [] => false
  | b :: _ =>
    let type := b &&& 0x1f
    type == 1 || type == 5

/-- `isIdrNal`: NAL type 5. -/
def isIdrNal : List UInt8 → Bool
  | [] => false
  | b :: _ => (b &&& 0x1f) == 5

structure StartCode where
  offset : Nat
  size : Nat
deriving Repr, DecidableEq

/-- `findStartCode(buf, start, out)`, with `none` for `false`. The loop index `i` runs while
    `i + 3 < buf.size()`; the second argument of `go` only bounds the iterations left, and the
    bound `buf.size() - start` is never reached before the loop condition fails. -/
def findStartCode (buf : List UInt8) (start : Nat) : Option StartCode :=
  go start (buf.length - start)
where
  go (i : Nat) : Nat → Option StartCode
    | 0 => none
    | n + 1 =>
      if i + 3 < buf.length then
        if buf.getD i 0 = 0 ∧ buf.getD (i + 1) 0 = 0 then
          if buf.getD (i + 2) 0 = 1 then some ⟨i, 3⟩
          else if i + 4 < buf.length ∧ buf.getD (i + 2) 0 = 0 ∧ buf.getD (i + 3) 0 = 1 then
            some ⟨i, 4⟩
          else go (i + 1) n
        else go (i + 1) n
      else none

/-! ## 1. Start codes as patterns -/

/-- The start code a byte string begins with, by its size: `00 00 01` or `00 00 00 01`, followed
    by at least one more byte. -/
def startCodeHere : List UInt8 → Option Nat
  | 0 :: 0 :: 1 :: _ :: _ => some 3
  | 0 :: 0 :: 0 :: 1 :: _ :: _ => some 4
  | _ => none

theorem startCodeHere_cons (a b c d : UInt8) (t : List UInt8) :
    startCodeHere (a :: b :: c :: d :: t) =
      if a = 0 ∧ b = 0 then
        if c = 1 then some 3 else if t ≠ [] ∧ c = 0 ∧ d = 1 then some 4 else none
      else none := by
  unfold startCodeHere
  split
  · simp_all
  · simp_all
  · rename_i h3 h4
    split_ifs with hab hc h4'
    · obtain ⟨rfl, rfl⟩ := hab
      subst hc
      exact absurd rfl (h3 d t)
    · obtain ⟨rfl, rfl⟩ := hab
      obtain ⟨ht, rfl, rfl⟩ := h4'
      obtain ⟨x, t', rfl⟩ := List.exists_cons_of_ne_nil ht
      exact absurd rfl (h4 x t')
    all_goals rfl

/-- What the pattern finds: `00 00 01` or `00 00 00 01`, and at least one byte after it. -/
theorem startCodeHere_eq_some {l : List UInt8} {k : Nat} (h : startCodeHere l = some k) :
    (k = 3 ∧ ∃ y t, l = 0 :: 0 :: 1 :: y :: t) ∨ (k = 4 ∧ ∃ y t, l = 0 :: 0 :: 0 :: 1 :: y :: t) := by
  unfold startCodeHere at h
  split at h
  · cases h; exact .inl ⟨rfl, _, _, rfl⟩
  · cases h; exact .inr ⟨rfl, _, _, rfl⟩
  · cases h

theorem startCodeHere_size {l : List UInt8} {k : Nat} (h : startCodeHere l = some k) :
    (k = 3 ∨ k = 4) ∧ k < l.length := by
  rcases startCodeHere_eq_some h with ⟨rfl, y, t, rfl⟩ | ⟨rfl, y, t, rfl⟩ <;> simp

/-- Bytes appended after a start code do not change it. -/
theorem startCodeHere_append {l : List UInt8} {k : Nat} (h : startCodeHere l = some k)
    (e : List UInt8) : startCodeHere (l ++ e) = some k := by
  rcases startCodeHere_eq_some h with ⟨rfl, y, t, rfl⟩ | ⟨rfl, y, t, rfl⟩ <;> rfl

/-- On five bytes or more the pattern is decided by the bytes already there. -/
theorem startCodeHere_append_of_length {l : List UInt8} (hl : 4 < l.length) (e : List UInt8) :
    startCodeHere (l ++ e) = startCodeHere l := by
  match l, hl with
  | a :: b :: c :: d :: x :: t, _ =>
    simp only [List.cons_append, startCodeHere_cons, ne_eq, reduceCtorEq, not_false_eq_true,
      true_and]

/-! ## 2. The scan as a recursion on the list -/

/-- A start code moved `d` bytes to the right. -/
def StartCode.shift (sc : StartCode) (d : Nat) : StartCode := ⟨sc.offset + d, sc.size⟩

@[simp] theorem StartCode.shift_offset (sc : StartCode) (d : Nat) :
    (sc.shift d).offset = sc.offset + d := rfl

@[simp] theorem StartCode.shift_size (sc : StartCode) (d : Nat) :
    (sc.shift d).size = sc.size := rfl

@[simp] theorem StartCode.shift_shift (sc : StartCode) (d e : Nat) :
    (sc.shift d).shift e = sc.shift (d + e) := by
  simp only [StartCode.shift, Nat.add_assoc]

@[simp] theorem StartCode.shift_zero (sc : StartCode) : sc.shift 0 = sc := rfl

/-- The leftmost start code of a byte string, found one position at a time. -/
def firstStartCode : List UInt8 → Option StartCode
  | [] => none
  | l@(_ :: rest) =>
    match startCodeHere l with
    | some k => some ⟨0, k⟩
    | none => (firstStartCode rest).map (·.shift 1)

theorem firstStartCode_cons (x : UInt8) (rest : List UInt8) :
    firstStartCode (x :: rest) =
      match startCodeHere (x :: rest) with
      | some k => some ⟨0, k⟩
      | none => (firstStartCode rest).map (·.shift 1) := rfl

theorem firstStartCode_of_startCodeHere {l : List UInt8} {k : Nat}
    (h : startCodeHere l = some k) : firstStartCode l = some ⟨0, k⟩ := by
  cases l with
  | nil => simp [startCodeHere] at h
  | cons x rest => rw [firstStartCode_cons, h]

theorem firstStartCode_bound {l : List UInt8} {sc : StartCode} (h : firstStartCode l = some sc) :
    (sc.size = 3 ∨ sc.size = 4) ∧ sc.offset + sc.size < l.length := by
  induction l generalizing sc with
  | nil => simp [firstStartCode] at h
  | cons x rest ih =>
    rw [firstStartCode_cons] at h
    split at h
    · rename_i k hk
      cases h
      simpa using startCodeHere_size hk
    · obtain ⟨sc', hsc', rfl⟩ := Option.map_eq_some'.mp h
      have := ih hsc'
      simp only [StartCode.shift_offset, StartCode.shift_size, List.length_cons]
      omega

theorem firstStartCode_eq_none_of_length {l : List UInt8} (hl : l.length ≤ 3) :
    firstStartCode l = none := by
  cases h : firstStartCode l with
  | none => rfl
  | some sc => have := firstStartCode_bound h; omega

/-- `getD` on the original buffer reads the dropped list. -/
theorem getD_eq_getD_drop (buf : List UInt8) (i j : Nat) :
    buf.getD (i + j) 0 = (buf.drop i).getD j 0 := by
  simp only [List.getD_eq_getElem?_getD, List.getElem?_drop]

/-- The code's indexed loop computes the list recursion, shifted to the loop's start. -/
theorem findStartCode_go_eq (buf : List UInt8) (n : Nat) :
    ∀ i, buf.length ≤ i + n →
      findStartCode.go buf i n = (firstStartCode (buf.drop i)).map (·.shift i) := by
  induction n with
  | zero =>
    intro i hi
    simp [findStartCode.go, List.drop_eq_nil_of_le (by omega : buf.length ≤ i), firstStartCode]
  | succ n ih =>
    intro i hi
    unfold findStartCode.go
    by_cases hlen : i + 3 < buf.length
    · rw [if_pos hlen]
      have hlen3 : 3 < (buf.drop i).length := by simp only [List.length_drop]; omega
      match hd : buf.drop i, hlen3 with
      | a :: b :: c :: d :: t, _ =>
        have hrest : buf.drop (i + 1) = b :: c :: d :: t := by
          rw [← List.drop_drop, hd]; rfl
        have g : ∀ j, buf.getD (i + j) 0 = (a :: b :: c :: d :: t).getD j 0 := fun j => by
          rw [getD_eq_getD_drop, hd]
        have hL : buf.length = i + (t.length + 4) := by
          have := congrArg List.length hd
          simp only [List.length_drop, List.length_cons] at this
          omega
        have hlen' : i + 4 < buf.length ↔ t ≠ [] := by
          rw [hL]; cases t <;> simp
        have g0 := g 0; have g1 := g 1; have g2 := g 2; have g3 := g 3
        simp only [Nat.add_zero, List.getD_cons_zero, List.getD_cons_succ] at g0 g1 g2 g3
        rw [g0, g1, g2, g3, ih (i + 1) (by omega), hrest, firstStartCode_cons a,
          startCodeHere_cons]
        simp only [hlen']
        split_ifs <;> simp [Option.map_map, Function.comp_def, StartCode.shift, Nat.add_comm 1,
          Nat.add_assoc]
    · rw [if_neg hlen, firstStartCode_eq_none_of_length (by simp; omega)]
      rfl

theorem findStartCode_eq_firstStartCode (buf : List UInt8) (start : Nat) :
    findStartCode buf start = (firstStartCode (buf.drop start)).map (·.shift start) :=
  findStartCode_go_eq buf _ start (by omega)

/-! ## 3. The leftmost start code -/

theorem firstStartCode_found {l : List UInt8} {sc : StartCode} (h : firstStartCode l = some sc) :
    startCodeHere (l.drop sc.offset) = some sc.size := by
  induction l generalizing sc with
  | nil => simp [firstStartCode] at h
  | cons x rest ih =>
    rw [firstStartCode_cons] at h
    split at h
    · rename_i k hk
      cases h
      exact hk
    · obtain ⟨sc', hsc', rfl⟩ := Option.map_eq_some'.mp h
      exact ih hsc'

theorem firstStartCode_leftmost {l : List UInt8} {sc : StartCode} (h : firstStartCode l = some sc)
    {j : Nat} (hj : j < sc.offset) : startCodeHere (l.drop j) = none := by
  induction l generalizing sc j with
  | nil => simp [firstStartCode] at h
  | cons x rest ih =>
    rw [firstStartCode_cons] at h
    split at h
    · cases h
      simp at hj
    · rename_i hnone
      obtain ⟨sc', hsc', rfl⟩ := Option.map_eq_some'.mp h
      cases j with
      | zero => exact hnone
      | succ j => exact ih hsc' (by simpa using hj)

theorem firstStartCode_none {l : List UInt8} (h : firstStartCode l = none) (j : Nat) :
    startCodeHere (l.drop j) = none := by
  induction l generalizing j with
  | nil => simp [startCodeHere]
  | cons x rest ih =>
    rw [firstStartCode_cons] at h
    split at h
    · cases h
    · rename_i hnone
      cases j with
      | zero => exact hnone
      | succ j => exact ih (by simpa using h) j

/-- The scan's result is the unique leftmost start code. -/
theorem firstStartCode_eq_some_iff {l : List UInt8} {sc : StartCode} :
    firstStartCode l = some sc ↔
      startCodeHere (l.drop sc.offset) = some sc.size ∧
        ∀ j < sc.offset, startCodeHere (l.drop j) = none := by
  refine ⟨fun h => ⟨firstStartCode_found h, fun j => firstStartCode_leftmost h⟩, ?_⟩
  rintro ⟨hfound, hleft⟩
  cases h : firstStartCode l with
  | none => simp [firstStartCode_none h] at hfound
  | some sc' =>
    have hfound' := firstStartCode_found h
    have hoff : sc'.offset = sc.offset := by
      rcases Nat.lt_trichotomy sc'.offset sc.offset with hlt | heq | hgt
      · simp [hleft _ hlt] at hfound'
      · exact heq
      · simp [firstStartCode_leftmost h hgt] at hfound
    rw [hoff, hfound] at hfound'
    cases sc; cases sc'
    simp_all

/-- Bytes received after a start code has been found do not change it. -/
theorem firstStartCode_append {l : List UInt8} {sc : StartCode} (h : firstStartCode l = some sc)
    (e : List UInt8) : firstStartCode (l ++ e) = some sc := by
  induction l generalizing sc with
  | nil => simp [firstStartCode] at h
  | cons x rest ih =>
    rw [firstStartCode_cons] at h
    rw [List.cons_append, firstStartCode_cons]
    split at h
    · rename_i k hk
      cases h
      rw [← List.cons_append, startCodeHere_append hk]
    · rename_i hnone
      obtain ⟨sc', hsc', rfl⟩ := Option.map_eq_some'.mp h
      have hlen := firstStartCode_bound hsc'
      rw [← List.cons_append, startCodeHere_append_of_length (by simp; omega), hnone, ih hsc']
      rfl

/-! ## 4. `findStartCode` -/

theorem findStartCode_eq_some_iff {buf : List UInt8} {start : Nat} {sc : StartCode} :
    findStartCode buf start = some sc ↔
      start ≤ sc.offset ∧ startCodeHere (buf.drop sc.offset) = some sc.size ∧
        ∀ i, start ≤ i → i < sc.offset → startCodeHere (buf.drop i) = none := by
  rw [findStartCode_eq_firstStartCode, Option.map_eq_some']
  constructor
  · rintro ⟨sc', hsc', rfl⟩
    obtain ⟨hfound, hleft⟩ := firstStartCode_eq_some_iff.mp hsc'
    refine ⟨by simp, ?_, fun i hi hlt => ?_⟩
    · simpa [List.drop_drop, Nat.add_comm] using hfound
    · have := hleft (i - start) (by simp at hlt; omega)
      rwa [List.drop_drop, Nat.add_sub_cancel' hi] at this
  · rintro ⟨hle, hfound, hleft⟩
    refine ⟨⟨sc.offset - start, sc.size⟩, firstStartCode_eq_some_iff.mpr ⟨?_, fun j hj => ?_⟩, ?_⟩
    · rwa [List.drop_drop, Nat.add_sub_cancel' hle]
    · rw [List.drop_drop]
      exact hleft _ (by omega) (by simp at hj; omega)
    · cases sc
      simp only [StartCode.shift, StartCode.mk.injEq, and_true]
      simp at hle; omega

theorem findStartCode_eq_none_iff {buf : List UInt8} {start : Nat} :
    findStartCode buf start = none ↔ ∀ i, start ≤ i → startCodeHere (buf.drop i) = none := by
  rw [findStartCode_eq_firstStartCode, Option.map_eq_none']
  constructor
  · intro h i hi
    have := firstStartCode_none h (i - start)
    rwa [List.drop_drop, Nat.add_sub_cancel' hi] at this
  · intro h
    cases hf : firstStartCode (buf.drop start) with
    | none => rfl
    | some sc =>
      have := firstStartCode_found hf
      rw [List.drop_drop, h _ (by omega)] at this
      cases this

theorem findStartCode_bound {buf : List UInt8} {start : Nat} {sc : StartCode}
    (h : findStartCode buf start = some sc) :
    start ≤ sc.offset ∧ (sc.size = 3 ∨ sc.size = 4) ∧ sc.offset + sc.size < buf.length := by
  rw [findStartCode_eq_firstStartCode, Option.map_eq_some'] at h
  obtain ⟨sc', hsc', rfl⟩ := h
  have := firstStartCode_bound hsc'
  simp only [StartCode.shift_offset, StartCode.shift_size, List.length_drop] at this ⊢
  omega

/-- Bytes appended to the buffer do not change a start code already found. -/
theorem findStartCode_append {buf : List UInt8} {start : Nat} {sc : StartCode}
    (h : findStartCode buf start = some sc) (ext : List UInt8) :
    findStartCode (buf ++ ext) start = some sc := by
  have hle : start ≤ buf.length := by have := findStartCode_bound h; omega
  rw [findStartCode_eq_firstStartCode] at h ⊢
  rw [List.drop_append_of_le_length hle]
  obtain ⟨sc', hsc', rfl⟩ := Option.map_eq_some'.mp h
  rw [firstStartCode_append hsc']
  rfl

/-- Searching again from a start code's own offset finds that start code. -/
theorem findStartCode_refind {buf : List UInt8} {start : Nat} {sc : StartCode}
    (h : findStartCode buf start = some sc) : findStartCode buf sc.offset = some sc := by
  obtain ⟨-, hfound, -⟩ := findStartCode_eq_some_iff.mp h
  exact findStartCode_eq_some_iff.mpr ⟨le_refl _, hfound, fun i h1 h2 => absurd h2 (by omega)⟩

/-- A start code found where the search began lies at least four bytes before the buffer's end. -/
theorem findStartCode_self_lt {buf : List UInt8} {p k : Nat}
    (h : findStartCode buf p = some ⟨p, k⟩) : p + 3 < buf.length := by
  have := findStartCode_bound h
  simp only at this
  omega

/-- Scanning a buffer with its first `d` bytes erased is scanning the whole buffer `d` further on. -/
theorem findStartCode_drop (buf : List UInt8) {d s : Nat} (hd : d ≤ s) :
    findStartCode (buf.drop d) (s - d) =
      (findStartCode buf s).map (fun sc => ⟨sc.offset - d, sc.size⟩) := by
  rw [findStartCode_eq_firstStartCode, findStartCode_eq_firstStartCode, List.drop_drop,
    Nat.add_sub_cancel' hd, Option.map_map]
  congr 1
  funext sc
  simp only [Function.comp, StartCode.shift]
  congr 1
  omega

/-- **`findStartCode` finds exactly the leftmost complete start code.** It returns a start code iff
    some position `i ≥ start` begins `00 00 01` or `00 00 00 01` with a byte after it; the result
    is the least such position with the size of the pattern there. So `start ≤ offset`,
    `offset + size < buf.size()`, and the result survives any bytes appended to the buffer. -/
theorem findStartCode_finds_leftmost (buf : List UInt8) (start : Nat) :
    (∀ sc, findStartCode buf start = some sc ↔
      start ≤ sc.offset ∧ startCodeHere (buf.drop sc.offset) = some sc.size ∧
        ∀ i, start ≤ i → i < sc.offset → startCodeHere (buf.drop i) = none) ∧
    (findStartCode buf start = none ↔ ∀ i, start ≤ i → startCodeHere (buf.drop i) = none) ∧
    (∀ sc, findStartCode buf start = some sc →
      start ≤ sc.offset ∧ sc.offset + sc.size < buf.length) ∧
    (∀ sc ext, findStartCode buf start = some sc → findStartCode (buf ++ ext) start = some sc) :=
  ⟨fun _ => findStartCode_eq_some_iff, findStartCode_eq_none_iff,
    fun _ h => ⟨(findStartCode_bound h).1, (findStartCode_bound h).2.2⟩,
    fun _ ext h => findStartCode_append h ext⟩

/- A 4-byte start code is only found with a byte after it, and is then not read as a 3-byte one. -/
example : findStartCode [0, 0, 0, 1] 0 = none := by decide
example : findStartCode [7, 0, 0, 0, 1, 9] 0 = some ⟨1, 4⟩ := by decide

end PublishH264
