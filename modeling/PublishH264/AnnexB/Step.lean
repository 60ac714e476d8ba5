import PublishH264.AnnexB.Scan

/-!
# AnnexB.Step — one `recv` of the Annex-B reader

One iteration of the outer `while (running_.load())` loop of the Annex-B branch, after `recv`
returned a chunk: append it to `stream_buf`, run the inner loop from `parse_pos = 0`, erase the
consumed prefix. The state between iterations is `stream_buf` with `access_unit` and `has_idr`.

The main result, `annexBStep_chunking_invariant`, says that how the bytes are cut into `recv`
chunks does not matter: two chunks in turn do exactly what their concatenation does in one.
-/

namespace PublishH264

/-! ## 1. The iteration, for any `emit_access_unit` -/

section
variable {σ : Type} (emit : σ → List UInt8 → Bool → σ)

/-- One iteration on a received `chunk`: `stream_buf` and the captured state afterwards. The
    erase at the end is `if (parse_pos > 0) stream_buf.erase(begin, begin + parse_pos)`. -/
def annexBIteration (buf : List UInt8) (acc : σ) (chunk : List UInt8) : List UInt8 × σ :=
  let r := scanLoop emit (buf ++ chunk) 0 acc
  (if r.2.1 > 0 then r.1.drop r.2.1 else r.1, r.2.2)

/-- The iterations on successive `recv` chunks. -/
def annexBRunWith (buf : List UInt8) (acc : σ) : List (List UInt8) → List UInt8 × σ
  | [] => (buf, acc)
  | c :: cs => annexBRunWith (annexBIteration emit buf acc c).1 (annexBIteration emit buf acc c).2 cs

/-- The second chunk's iteration, when the first one stopped on a start code at `q > 0`: the
    inner loop on the kept suffix is the inner loop on the whole buffer from `q`. -/
theorem annexBIteration_after_startCode {buf : List UInt8} {q k : Nat} (hq : 0 < q)
    (hsc : findStartCode buf q = some ⟨q, k⟩) (acc : σ) (b : List UInt8) :
    annexBIteration emit (buf.drop q) acc b =
      (if (scanLoop emit (buf ++ b) q acc).2.1 > 0 then
          (scanLoop emit (buf ++ b) q acc).1.drop (scanLoop emit (buf ++ b) q acc).2.1
        else (scanLoop emit (buf ++ b) q acc).1,
        (scanLoop emit (buf ++ b) q acc).2.2) := by
  have hsc' := findStartCode_append hsc b
  have hq' : q ≤ buf.length := by have := findStartCode_bound hsc; omega
  obtain ⟨-, hle, -⟩ := scanLoop_of_startCode emit hsc' acc
  have hd := scanLoop_drop emit hsc' (le_refl q) acc
  rw [Nat.sub_self] at hd
  unfold annexBIteration
  rw [← List.drop_append_of_le_length hq', hd]
  dsimp only
  rw [if_pos (show (scanLoop emit (buf ++ b) q acc).2.1 > 0 by omega)]
  split_ifs with h
  · rw [List.drop_drop, Nat.add_sub_cancel' hle]
  · rw [show (scanLoop emit (buf ++ b) q acc).2.1 = q by omega]

/-- Two chunks in turn do what their concatenation does in one iteration. -/
theorem annexBIteration_append (buf : List UInt8) (acc : σ) (a b : List UInt8) :
    annexBIteration emit buf acc (a ++ b) =
      annexBIteration emit (annexBIteration emit buf acc a).1 (annexBIteration emit buf acc a).2 b := by
  have hab : annexBIteration emit buf acc (a ++ b) =
      let r := scanLoop emit (buf ++ a ++ b) 0 acc
      (if r.2.1 > 0 then r.1.drop r.2.1 else r.1, r.2.2) := by
    rw [annexBIteration, List.append_assoc]
  rw [hab, scanLoop_append, show annexBIteration emit buf acc a =
    let r := scanLoop emit (buf ++ a) 0 acc
    (if r.2.1 > 0 then r.1.drop r.2.1 else r.1, r.2.2) from rfl]
  generalize hr : scanLoop emit (buf ++ a) 0 acc = r
  obtain ⟨buf', q, acc'⟩ := r
  rcases Nat.eq_zero_or_pos q with rfl | hq
  · rfl
  · obtain ⟨k, hk⟩ := scanLoop_zero_startCode emit (buf ++ a) acc (by rw [hr]; exact hq)
    rw [hr] at hk
    simp only [if_pos hq]
    rw [annexBIteration_after_startCode emit hq hk]

theorem annexBRunWith_cons (buf : List UInt8) (acc : σ) (c : List UInt8)
    (cs : List (List UInt8)) :
    annexBRunWith emit buf acc (c :: cs) = annexBIteration emit buf acc (c :: cs).flatten := by
  induction cs generalizing buf acc c with
  | nil => simp [annexBRunWith]
  | cons c' cs ih =>
    rw [annexBRunWith, ih, show (c :: c' :: cs).flatten = c ++ (c' :: cs).flatten from rfl,
      annexBIteration_append]

/-- From an empty `stream_buf`, a run over any chunks is one iteration on all their bytes. -/
theorem annexBRunWith_nil (acc : σ) (chunks : List (List UInt8)) :
    annexBRunWith emit [] acc chunks = annexBIteration emit [] acc chunks.flatten := by
  cases chunks with
  | nil =>
    simp only [annexBRunWith, List.flatten_nil, annexBIteration, List.nil_append,
      scanLoop_zero_of_none emit (rfl : findStartCode [] 0 = none)]
    rfl
  | cons c cs => exact annexBRunWith_cons emit [] acc c cs

theorem annexBIteration_eq_foldl (buf : List UInt8) (acc : σ) (chunk : List UInt8) :
    annexBIteration emit buf acc chunk =
      ((annexBIteration recordNal buf [] chunk).1,
        (annexBIteration recordNal buf [] chunk).2.foldl (fun a nal => emit a nal (isVclNal nal))
          acc) := by
  simp only [annexBIteration, scanLoop_eq_foldl emit (buf ++ chunk)]

end

/-- The NALs the Annex-B loop of a fresh worker passes to `emit_access_unit` over the `recv`
    chunks `chunks`. -/
def annexBNals (chunks : List (List UInt8)) : List (List UInt8) :=
  (annexBRunWith recordNal [] [] chunks).2

/-! ## 2. The worker's iteration -/

/-- The Annex-B worker's state between two `recv` calls. -/
structure AnnexBState where
  streamBuf : List UInt8
  asm : Assembler

/-- `stream_buf`, `access_unit` and `has_idr` as `loop()` creates them. -/
def AnnexBState.init : AnnexBState := ⟨[], Assembler.empty⟩

/-- One iteration of the Annex-B loop on a received `chunk`, with the access units it hands to
    `callback_`. -/
def annexBStep (s : AnnexBState) (chunk : List UInt8) : AnnexBState × List H264AccessUnit :=
  let r := annexBIteration deliver s.streamBuf (s.asm, []) chunk
  (⟨r.1, r.2.1⟩, r.2.2)

/-- The Annex-B loop over successive `recv` chunks, with all access units handed on. -/
def annexBRun (s : AnnexBState) : List (List UInt8) → AnnexBState × List H264AccessUnit
  | [] => (s, [])
  | c :: cs =>
    let r := annexBStep s c
    let r' := annexBRun r.1 cs
    (r'.1, r.2 ++ r'.2)

/-- `deliver` does not read the access units already handed on. -/
theorem annexBIteration_deliver_out (buf : List UInt8) (asm : Assembler)
    (out : List H264AccessUnit) (chunk : List UInt8) :
    annexBIteration deliver buf (asm, out) chunk =
      ((annexBIteration deliver buf (asm, []) chunk).1,
        (annexBIteration deliver buf (asm, []) chunk).2.1,
        out ++ (annexBIteration deliver buf (asm, []) chunk).2.2) := by
  have := scanLoop_map deliver (fun x => (x.1, out ++ x.2))
    (fun _ _ _ => by simp [deliver, List.append_assoc]) (buf ++ chunk) 0 (asm, [])
  simp only [List.append_nil] at this
  simp only [annexBIteration, this]

theorem annexBStep_append (s : AnnexBState) (a b : List UInt8) :
    annexBStep s (a ++ b) =
      ((annexBStep (annexBStep s a).1 b).1, (annexBStep s a).2 ++ (annexBStep (annexBStep s a).1 b).2) := by
  simp only [annexBStep, annexBIteration_append deliver s.streamBuf (s.asm, []) a b]
  rw [annexBIteration_deliver_out]

theorem annexBRun_cons (s : AnnexBState) (c : List UInt8) (cs : List (List UInt8)) :
    annexBRun s (c :: cs) = annexBStep s (c :: cs).flatten := by
  induction cs generalizing s c with
  | nil => simp [annexBRun]
  | cons c' cs ih =>
    rw [annexBRun, ih, show (c :: c' :: cs).flatten = c ++ (c' :: cs).flatten from rfl,
      annexBStep_append s c]

/-- **The Annex-B branch is the start-code scan followed by the assembler.** A fresh worker's run
    hands on exactly the access units the assembler makes of the NALs the scan passes. -/
theorem annexBRun_eq_runAssembler (chunks : List (List UInt8)) :
    annexBRun AnnexBState.init chunks =
      (⟨(annexBRunWith recordNal [] [] chunks).1,
          (runAssembler (Assembler.empty, []) (annexBNals chunks)).1⟩,
        (runAssembler (Assembler.empty, []) (annexBNals chunks)).2) := by
  cases chunks with
  | nil => rfl
  | cons c cs =>
    rw [annexBRun_cons, annexBNals, annexBRunWith_cons]
    simp only [annexBStep, AnnexBState.init, annexBIteration_eq_foldl deliver]
    rfl

/-- **Annex-B chunking invariance.** For every state and all byte strings `a` and `b`, the
    iteration on `a` then the one on `b` end in the same state, with the same access units in the
    same order, as the one iteration on `a ++ b`. Hence for every partition of a byte stream into
    `recv` chunks, each prefix of the run delivers what the bytes received so far deliver as one
    chunk. -/
theorem annexBStep_chunking_invariant :
    (∀ (s : AnnexBState) (a b : List UInt8),
      annexBStep s (a ++ b) =
        ((annexBStep (annexBStep s a).1 b).1, (annexBStep s a).2 ++ (annexBStep (annexBStep s a).1 b).2)) ∧
    (∀ (s : AnnexBState) (c : List UInt8) (cs : List (List UInt8)),
      annexBRun s (c :: cs) = annexBStep s (c :: cs).flatten) :=
  ⟨annexBStep_append, annexBRun_cons⟩

end PublishH264
