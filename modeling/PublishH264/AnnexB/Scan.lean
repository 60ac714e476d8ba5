import PublishH264.Assembler

/-!
# AnnexB.Scan — the inner loop of the Annex-B reader

After each `recv`, `H264TcpSource::loop` scans `stream_buf` from `parse_pos = 0`:

```
while (findStartCode(stream_buf, parse_pos, sc)) {
  if (parse_pos == 0 && sc.offset > 0) { erase leading bytes; parse_pos = 0; continue; }
  if (!findStartCode(stream_buf, sc.offset + sc.size, next_sc)) break;
  nal_size = next_sc.offset - (sc.offset + sc.size);
  if (nal_size > 0) emit_access_unit(...);
  parse_pos = next_sc.offset;
}
```

`scanIteration` is one pass of the body, `scanLoop` the loop. The loop is generic in what
`emit_access_unit` does to its captured state (`emit`), so that the same loop gives both the
access units (`deliver`) and the list of NALs passed (`scanLoop_eq_foldl`). Every pass lowers
`stream_buf.size() - parse_pos` (`scanIteration_decreases`), which is the loop's termination
measure. `scanLoop_terminates` counts the passes from `parse_pos = 0`: at most
`stream_buf.size() / 3`, with the erase only in the first.
-/

namespace PublishH264

section
variable {σ : Type} (emit : σ → List UInt8 → Bool → σ)

/-- One pass of the inner loop's body: `none` when the loop ends (its condition fails or the body
    `break`s), else the next `stream_buf`, `parse_pos` and captured state. -/
def scanIteration (buf : List UInt8) (parsePos : Nat) (acc : σ) :
    Option (List UInt8 × Nat × σ) :=
  match findStartCode buf parsePos with
  | none => none
  | some sc =>
    if parsePos = 0 ∧ sc.offset > 0 then some (buf.drop sc.offset, 0, acc)
    else
      match findStartCode buf (sc.offset + sc.size) with
      | none => none
      | some nextSc =>
        let nalStart := sc.offset + sc.size
        let nalSize := nextSc.offset - nalStart
        let nal := (buf.drop nalStart).take nalSize
        some (buf, nextSc.offset, if nalSize > 0 then emit acc nal (isVclNal nal) else acc)

theorem scanIteration_decreases {buf : List UInt8} {parsePos : Nat} {acc : σ}
    {r : List UInt8 × Nat × σ} (h : scanIteration emit buf parsePos acc = some r) :
    r.1.length - r.2.1 < buf.length - parsePos := by
  unfold scanIteration at h
  split at h
  · cases h
  · rename_i sc hsc
    have := findStartCode_bound hsc
    split at h
    · cases h
      simp only [List.length_drop]
      omega
    · split at h
      · cases h
      · rename_i nx hnx
        have := findStartCode_bound hnx
        cases h
        simp only
        omega

/-- The inner `while` loop of the Annex-B branch, from `stream_buf`, `parse_pos` and the captured
    state to their values when it exits. -/
def scanLoop (buf : List UInt8) (parsePos : Nat) (acc : σ) : List UInt8 × Nat × σ :=
  match h : scanIteration emit buf parsePos acc with
  | none => (buf, parsePos, acc)
  | some r => scanLoop r.1 r.2.1 r.2.2
termination_by buf.length - parsePos
decreasing_by exact scanIteration_decreases emit h

theorem scanLoop_of_none {buf : List UInt8} {parsePos : Nat} {acc : σ}
    (h : scanIteration emit buf parsePos acc = none) :
    scanLoop emit buf parsePos acc = (buf, parsePos, acc) := by
  rw [scanLoop]; split <;> simp_all

theorem scanLoop_of_some {buf : List UInt8} {parsePos : Nat} {acc : σ}
    {r : List UInt8 × Nat × σ} (h : scanIteration emit buf parsePos acc = some r) :
    scanLoop emit buf parsePos acc = scanLoop emit r.1 r.2.1 r.2.2 := by
  rw [scanLoop]; split <;> simp_all

/-! ## 1. Bytes received later -/

/-- A pass of the body on a buffer is the same pass once more bytes have been appended. -/
theorem scanIteration_append {buf : List UInt8} {parsePos : Nat} {acc : σ}
    {r : List UInt8 × Nat × σ} (h : scanIteration emit buf parsePos acc = some r)
    (e : List UInt8) : scanIteration emit (buf ++ e) parsePos acc = some (r.1 ++ e, r.2.1, r.2.2) := by
  unfold scanIteration at h ⊢
  split at h
  · cases h
  · rename_i sc hsc
    have hb := findStartCode_bound hsc
    rw [findStartCode_append hsc]
    dsimp only
    split at h
    · rename_i hc
      cases h
      rw [if_pos hc, List.drop_append_of_le_length (by omega)]
    · rename_i hc
      rw [if_neg hc]
      split at h
      · cases h
      · rename_i nx hnx
        have hn := findStartCode_bound hnx
        rw [findStartCode_append hnx]
        cases h
        simp only [List.drop_append_of_le_length (by omega : sc.offset + sc.size ≤ buf.length),
          List.take_append_of_le_length (by simp; omega : nx.offset - (sc.offset + sc.size) ≤
            (buf.drop (sc.offset + sc.size)).length)]

/-- **Run extension.** Scanning a buffer with more bytes appended first does everything the scan
    of the shorter buffer does, then continues from where that scan stopped. -/
theorem scanLoop_append (buf : List UInt8) (parsePos : Nat) (acc : σ) (e : List UInt8) :
    scanLoop emit (buf ++ e) parsePos acc =
      scanLoop emit ((scanLoop emit buf parsePos acc).1 ++ e) (scanLoop emit buf parsePos acc).2.1
        (scanLoop emit buf parsePos acc).2.2 := by
  induction buf, parsePos, acc using scanLoop.induct emit with
  | case1 buf parsePos acc h => rw [scanLoop_of_none emit h]
  | case2 buf parsePos acc r h ih =>
    rw [scanLoop_of_some emit (scanIteration_append emit h e), scanLoop_of_some emit h]
    exact ih

/-! ## 2. The captured state -/

/-- A map of the captured state that `emit` commutes with commutes with the whole loop. -/
theorem scanLoop_map (f : σ → σ) (hf : ∀ a nal isVcl, emit (f a) nal isVcl = f (emit a nal isVcl))
    (buf : List UInt8) (parsePos : Nat) (acc : σ) :
    scanLoop emit buf parsePos (f acc) =
      ((scanLoop emit buf parsePos acc).1, (scanLoop emit buf parsePos acc).2.1,
        f (scanLoop emit buf parsePos acc).2.2) := by
  have hit : ∀ buf parsePos acc, scanIteration emit buf parsePos (f acc) =
      (scanIteration emit buf parsePos acc).map fun r => (r.1, r.2.1, f r.2.2) := by
    intro buf parsePos acc
    unfold scanIteration
    split
    · rfl
    · split
      · rfl
      · split
        · rfl
        · simp only [Option.map_some']
          split <;> simp [hf]
  induction buf, parsePos, acc using scanLoop.induct emit with
  | case1 buf parsePos acc h =>
    rw [scanLoop_of_none emit h, scanLoop_of_none emit (by rw [hit, h]; rfl)]
  | case2 buf parsePos acc r h ih =>
    rw [scanLoop_of_some emit h, scanLoop_of_some emit (by rw [hit, h]; rfl)]
    exact ih

/-! ## 3. From a start code -/

/-- The body when `parse_pos` sits on a start code of `k` bytes: nothing is erased, and the next
    start code, if found, closes a NAL. -/
theorem scanIteration_of_startCode {buf : List UInt8} {pos k : Nat}
    (hp : findStartCode buf pos = some ⟨pos, k⟩) (acc : σ) :
    scanIteration emit buf pos acc =
      (findStartCode buf (pos + k)).map fun nx =>
        (buf, nx.offset, if nx.offset - (pos + k) > 0 then
          emit acc ((buf.drop (pos + k)).take (nx.offset - (pos + k)))
            (isVclNal ((buf.drop (pos + k)).take (nx.offset - (pos + k))))
          else acc) := by
  unfold scanIteration
  rw [hp]
  dsimp only
  rw [if_neg (by omega)]
  cases findStartCode buf (pos + k) <;> rfl

theorem scanIteration_startCode_next {buf : List UInt8} {pos k : Nat} {acc : σ}
    {r : List UInt8 × Nat × σ} (hp : findStartCode buf pos = some ⟨pos, k⟩)
    (h : scanIteration emit buf pos acc = some r) :
    r.1 = buf ∧ pos < r.2.1 ∧ ∃ k', findStartCode buf r.2.1 = some ⟨r.2.1, k'⟩ := by
  rw [scanIteration_of_startCode emit hp] at h
  obtain ⟨⟨o, k'⟩, hnx, rfl⟩ := Option.map_eq_some'.mp h
  have b1 := findStartCode_bound hnx
  have b2 := findStartCode_bound hp
  simp only at b1 b2
  exact ⟨rfl, by simp only; omega, k', findStartCode_refind hnx⟩

/-- From a start code the loop never erases, only moves forward, and stops on a start code after
    which no further start code is found. -/
theorem scanLoop_of_startCode {buf : List UInt8} {pos k : Nat}
    (hp : findStartCode buf pos = some ⟨pos, k⟩) (acc : σ) :
    (scanLoop emit buf pos acc).1 = buf ∧ pos ≤ (scanLoop emit buf pos acc).2.1 ∧
      ∃ k', findStartCode buf (scanLoop emit buf pos acc).2.1 =
          some ⟨(scanLoop emit buf pos acc).2.1, k'⟩ ∧
        findStartCode buf ((scanLoop emit buf pos acc).2.1 + k') = none := by
  induction buf, pos, acc using scanLoop.induct emit generalizing k with
  | case1 buf pos acc h =>
    rw [scanLoop_of_none emit h]
    rw [scanIteration_of_startCode emit hp, Option.map_eq_none'] at h
    exact ⟨rfl, le_refl _, k, hp, h⟩
  | case2 buf pos acc r h ih =>
    obtain ⟨h1, h2, k', h3⟩ := scanIteration_startCode_next emit hp h
    rw [← h1] at h3
    obtain ⟨i1, i2, i3⟩ := ih h3
    rw [scanLoop_of_some emit h, ← h1]
    exact ⟨i1, by omega, i3⟩

/-- One pass of the body on the buffer with its first `d` bytes erased, from a start code. -/
theorem scanIteration_drop {buf : List UInt8} {pos k d : Nat}
    (hp : findStartCode buf pos = some ⟨pos, k⟩) (hd : d ≤ pos) (acc : σ) :
    scanIteration emit (buf.drop d) (pos - d) acc =
      (scanIteration emit buf pos acc).map fun r => (r.1.drop d, r.2.1 - d, r.2.2) := by
  have hp' : findStartCode (buf.drop d) (pos - d) = some ⟨pos - d, k⟩ := by
    rw [findStartCode_drop buf hd, hp]; rfl
  rw [scanIteration_of_startCode emit hp', scanIteration_of_startCode emit hp,
    show pos - d + k = pos + k - d by omega, findStartCode_drop buf (by omega), Option.map_map,
    Option.map_map]
  cases hnx : findStartCode buf (pos + k) with
  | none => rfl
  | some nx =>
    have := findStartCode_bound hnx
    simp only [Option.map_some', Function.comp, List.drop_drop,
      show d + (pos + k - d) = pos + k by omega,
      show nx.offset - d - (pos + k - d) = nx.offset - (pos + k) by omega]

/-- **Shift.** Scanning the buffer with its first `d` bytes erased, from a start code, is the scan
    of the whole buffer seen `d` bytes further on. -/
theorem scanLoop_drop {buf : List UInt8} {pos k d : Nat}
    (hp : findStartCode buf pos = some ⟨pos, k⟩) (hd : d ≤ pos) (acc : σ) :
    scanLoop emit (buf.drop d) (pos - d) acc =
      ((scanLoop emit buf pos acc).1.drop d, (scanLoop emit buf pos acc).2.1 - d,
        (scanLoop emit buf pos acc).2.2) := by
  induction buf, pos, acc using scanLoop.induct emit generalizing k with
  | case1 buf pos acc h =>
    rw [scanLoop_of_none emit h,
      scanLoop_of_none emit (by rw [scanIteration_drop emit hp hd, h]; rfl)]
  | case2 buf pos acc r h ih =>
    obtain ⟨h1, h2, k', h3⟩ := scanIteration_startCode_next emit hp h
    rw [scanLoop_of_some emit h,
      scanLoop_of_some emit (by rw [scanIteration_drop emit hp hd, h]; rfl)]
    rw [← h1] at h3
    exact ih h3 (by omega)

theorem scanLoop_zero_of_none {buf : List UInt8} (h : findStartCode buf 0 = none) (acc : σ) :
    scanLoop emit buf 0 acc = (buf, 0, acc) :=
  scanLoop_of_none emit (by unfold scanIteration; rw [h])

/-- The loop stops where the body ends it. -/
theorem scanLoop_exit (buf : List UInt8) (parsePos : Nat) (acc : σ) :
    scanIteration emit (scanLoop emit buf parsePos acc).1 (scanLoop emit buf parsePos acc).2.1
      (scanLoop emit buf parsePos acc).2.2 = none := by
  induction buf, parsePos, acc using scanLoop.induct emit with
  | case1 buf parsePos acc h => rwa [scanLoop_of_none emit h]
  | case2 buf parsePos acc r h ih => rwa [scanLoop_of_some emit h]

/-- Scanning from `parse_pos = 0` erases the bytes before the first start code and scans on from
    it: the scan of the whole buffer from its first start code, seen from there. -/
theorem scanLoop_zero_of_found {buf : List UInt8} {sc : StartCode}
    (h : findStartCode buf 0 = some sc) (acc : σ) :
    scanLoop emit buf 0 acc =
      ((scanLoop emit buf sc.offset acc).1.drop sc.offset,
        (scanLoop emit buf sc.offset acc).2.1 - sc.offset, (scanLoop emit buf sc.offset acc).2.2) := by
  have hsc : findStartCode buf sc.offset = some ⟨sc.offset, sc.size⟩ := findStartCode_refind h
  by_cases ho : sc.offset = 0
  · rw [ho]; simp
  · have hit : scanIteration emit buf 0 acc = some (buf.drop sc.offset, 0, acc) := by
      unfold scanIteration
      rw [h]
      dsimp only
      rw [if_pos ⟨rfl, by omega⟩]
    rw [scanLoop_of_some emit hit, ← Nat.sub_self sc.offset]
    exact scanLoop_drop emit hsc (le_refl _) acc

/-! ## 4. The NALs passed to `emit_access_unit` -/

theorem scanIteration_eq_record (buf : List UInt8) (parsePos : Nat) (acc : σ) :
    scanIteration emit buf parsePos acc =
      (scanIteration recordNal buf parsePos []).map fun r =>
        (r.1, r.2.1, r.2.2.foldl (fun a nal => emit a nal (isVclNal nal)) acc) := by
  unfold scanIteration
  split
  · rfl
  · split
    · rfl
    · split
      · rfl
      · simp only [Option.map_some']
        split <;> simp [recordNal]

/-- **The loop is a fold over the NALs it passes.** Whatever `emit_access_unit` does, the loop
    calls it once per recorded NAL, in order, with `is_vcl = isVclNal(nal)`. -/
theorem scanLoop_eq_foldl (buf : List UInt8) (parsePos : Nat) (acc : σ) :
    scanLoop emit buf parsePos acc =
      ((scanLoop recordNal buf parsePos []).1, (scanLoop recordNal buf parsePos []).2.1,
        (scanLoop recordNal buf parsePos []).2.2.foldl (fun a nal => emit a nal (isVclNal nal))
          acc) := by
  induction buf, parsePos, acc using scanLoop.induct emit with
  | case1 buf parsePos acc h =>
    rw [scanLoop_of_none emit h, scanLoop_of_none recordNal]
    · rfl
    · simpa [scanIteration_eq_record emit buf parsePos acc] using h
  | case2 buf parsePos acc r h ih =>
    have h' := h
    rw [scanIteration_eq_record emit] at h'
    obtain ⟨r', hr', rfl⟩ := Option.map_eq_some'.mp h'
    have hrec := scanLoop_map recordNal (r'.2.2 ++ ·) (fun _ _ _ => by simp [recordNal])
      r'.1 r'.2.1 []
    simp only [List.append_nil] at hrec
    rw [scanLoop_of_some emit h, ih, scanLoop_of_some recordNal hr', hrec, List.foldl_append]

/-- A scan from `parse_pos = 0` that ends past `0` ends on a start code. -/
theorem scanLoop_zero_startCode (buf : List UInt8) (acc : σ)
    (hpos : 0 < (scanLoop emit buf 0 acc).2.1) :
    ∃ k, findStartCode (scanLoop emit buf 0 acc).1 (scanLoop emit buf 0 acc).2.1 =
      some ⟨(scanLoop emit buf 0 acc).2.1, k⟩ := by
  cases h : findStartCode buf 0 with
  | none => rw [scanLoop_zero_of_none emit h] at hpos; cases hpos
  | some sc =>
    have hsc : findStartCode buf sc.offset = some ⟨sc.offset, sc.size⟩ := findStartCode_refind h
    obtain ⟨h1, h2, k, h3, -⟩ := scanLoop_of_startCode emit hsc acc
    refine ⟨k, ?_⟩
    rw [scanLoop_zero_of_found emit h, h1]
    dsimp only
    rw [findStartCode_drop buf h2, h3]
    rfl

/-! ## 5. Termination -/

/-- `n` passes of the body from a state: the state after them, or `none` if the loop has exited
    before. -/
def scanRun : Nat → List UInt8 × Nat × σ → Option (List UInt8 × Nat × σ)
  | 0, s => some s
  | n + 1, s => (scanIteration emit s.1 s.2.1 s.2.2).bind (scanRun n)

/-- **What one pass does.** Either the erase of the bytes before a start code at `o > 0`, which
    happens only from `parse_pos = 0`; or a move to the next start code, at least three bytes
    further on, in the same buffer. -/
theorem scanIteration_erase_or_advance {buf : List UInt8} {pos : Nat} {acc : σ}
    {r : List UInt8 × Nat × σ} (h : scanIteration emit buf pos acc = some r) :
    (pos = 0 ∧ ∃ o k, 0 < o ∧ findStartCode buf 0 = some ⟨o, k⟩ ∧ r = (buf.drop o, 0, acc)) ∨
    (r.1 = buf ∧ pos + 3 ≤ r.2.1 ∧ ∃ k, findStartCode buf r.2.1 = some ⟨r.2.1, k⟩) := by
  unfold scanIteration at h
  split at h
  · cases h
  · rename_i sc hsc
    have hb := findStartCode_bound hsc
    split at h
    · rename_i hc
      cases h
      obtain ⟨rfl, ho⟩ := hc
      exact .inl ⟨rfl, sc.offset, sc.size, ho, hsc, rfl⟩
    · split at h
      · cases h
      · rename_i nx hnx
        have hn := findStartCode_bound hnx
        cases h
        exact .inr ⟨rfl, by simp only; omega, nx.size, findStartCode_refind hnx⟩

/-- From a start code a pass never erases. -/
theorem scanIteration_advance_of_startCode {buf : List UInt8} {pos k : Nat} {acc : σ}
    {r : List UInt8 × Nat × σ} (hp : findStartCode buf pos = some ⟨pos, k⟩)
    (h : scanIteration emit buf pos acc = some r) :
    r.1 = buf ∧ pos + 3 ≤ r.2.1 ∧ ∃ k', findStartCode buf r.2.1 = some ⟨r.2.1, k'⟩ := by
  rcases scanIteration_erase_or_advance emit h with ⟨rfl, o, k', ho, hf, -⟩ | hadv
  · rw [hp] at hf
    cases hf
    cases ho
  · exact hadv

theorem scanRun_succ {n : Nat} {s t : List UInt8 × Nat × σ}
    (h : scanRun emit (n + 1) s = some t) :
    ∃ r, scanIteration emit s.1 s.2.1 s.2.2 = some r ∧ scanRun emit n r = some t :=
  Option.bind_eq_some.mp h

/-- From a start code, every pass moves at least three bytes on, to a start code. -/
theorem scanRun_of_startCode {buf : List UInt8} {pos k : Nat} {acc : σ}
    (hp : findStartCode buf pos = some ⟨pos, k⟩) :
    ∀ n s, scanRun emit n (buf, pos, acc) = some s →
      s.1 = buf ∧ pos + 3 * n ≤ s.2.1 ∧ ∃ k', findStartCode buf s.2.1 = some ⟨s.2.1, k'⟩ := by
  intro n
  induction n generalizing pos k acc with
  | zero => intro s h; cases h; exact ⟨rfl, by simp, k, hp⟩
  | succ n ih =>
    intro s h
    obtain ⟨⟨b, p, a⟩, hr, hs⟩ := scanRun_succ emit h
    obtain ⟨rfl, hp3, k', hk'⟩ := scanIteration_advance_of_startCode emit hp hr
    dsimp only at hp3 hk'
    obtain ⟨h1, h2, h3⟩ := ih hk' s hs
    exact ⟨h1, by omega, h3⟩

/-- After a first pass from `parse_pos = 0` the loop stands on a start code, and every further
    pass moves at least three bytes on. -/
theorem scanRun_zero_succ {buf : List UInt8} {acc : σ} {m : Nat} {s : List UInt8 × Nat × σ}
    (h : scanRun emit (m + 1) (buf, 0, acc) = some s) :
    s.1.length ≤ buf.length ∧ 3 * m ≤ s.2.1 ∧ ∃ k, findStartCode s.1 s.2.1 = some ⟨s.2.1, k⟩ := by
  obtain ⟨r, hr, hs⟩ := scanRun_succ emit h
  rcases scanIteration_erase_or_advance emit hr with ⟨-, o, k, -, hf, rfl⟩ | ⟨h1, -, k, hk⟩
  · have h0 : findStartCode (buf.drop o) 0 = some ⟨0, k⟩ := by
      rw [← Nat.sub_self o, findStartCode_drop buf (le_refl o), findStartCode_refind hf]
      rfl
    obtain ⟨h1, h2, h3⟩ := scanRun_of_startCode emit h0 m s hs
    rw [h1]
    exact ⟨by simp, by omega, h3⟩
  · obtain ⟨b, p, a⟩ := r
    simp only at h1 hk
    subst h1
    obtain ⟨rfl, h2, h3⟩ := scanRun_of_startCode emit hk m s hs
    exact ⟨le_refl _, by omega, h3⟩

/-- The loop is its body run some number of times. -/
theorem scanRun_scanLoop (buf : List UInt8) (parsePos : Nat) (acc : σ) :
    ∃ n, scanRun emit n (buf, parsePos, acc) = some (scanLoop emit buf parsePos acc) := by
  induction buf, parsePos, acc using scanLoop.induct emit with
  | case1 buf parsePos acc h => exact ⟨0, by rw [scanLoop_of_none emit h]; rfl⟩
  | case2 buf parsePos acc r h ih =>
    obtain ⟨n, hn⟩ := ih
    exact ⟨n + 1, by rw [scanLoop_of_some emit h, scanRun, h]; exact hn⟩

/-- **The scan loop terminates on every buffer.** For every `stream_buf`, the inner loop run from
    `parse_pos = 0` exits after at most `stream_buf.size() / 3` passes, in the state `scanLoop`
    gives; the erase fires at most once, in the first pass, and every other pass raises
    `parse_pos` by at least three while it stays below `stream_buf.size()`. -/
theorem scanLoop_terminates (buf : List UInt8) (acc : σ) :
    (∃ n ≤ buf.length / 3, scanRun emit n (buf, 0, acc) = some (scanLoop emit buf 0 acc)) ∧
    scanIteration emit (scanLoop emit buf 0 acc).1 (scanLoop emit buf 0 acc).2.1
      (scanLoop emit buf 0 acc).2.2 = none ∧
    ∀ k s s', scanRun emit k (buf, 0, acc) = some s → scanIteration emit s.1 s.2.1 s.2.2 = some s' →
      (k = 0 ∧ ∃ o, 0 < o ∧ s' = (buf.drop o, 0, acc)) ∨
      (s'.1 = s.1 ∧ s.2.1 + 3 ≤ s'.2.1 ∧ s'.2.1 < s.1.length) := by
  refine ⟨?_, scanLoop_exit emit buf 0 acc, fun k s s' hs h => ?_⟩
  · obtain ⟨n, hn⟩ := scanRun_scanLoop emit buf 0 acc
    refine ⟨n, ?_, hn⟩
    cases n with
    | zero => exact Nat.zero_le _
    | succ m =>
      obtain ⟨hlen, hm, k, hk⟩ := scanRun_zero_succ emit hn
      have := findStartCode_self_lt hk
      omega
  · cases k with
    | zero =>
      cases hs
      dsimp only at h ⊢
      rcases scanIteration_erase_or_advance emit h with ⟨-, o, -, ho, -, rfl⟩ | ⟨h1, h2, k', hk'⟩
      · exact .inl ⟨rfl, o, ho, rfl⟩
      · exact .inr ⟨h1, h2, by have := findStartCode_self_lt hk'; omega⟩
    | succ m =>
      obtain ⟨-, -, k, hk⟩ := scanRun_zero_succ emit hs
      obtain ⟨h1, h2, k', hk'⟩ := scanIteration_advance_of_startCode emit hk h
      exact .inr ⟨h1, h2, by have := findStartCode_self_lt hk'; omega⟩

/-- Nine bytes: the erase of the byte before the first start code, one move to the next, then the
    exit, in two passes of the three the bound allows. -/
example : scanRun recordNal 2 ([7, 0, 0, 1, 5, 0, 0, 1, 9], 0, []) =
      some ([0, 0, 1, 5, 0, 0, 1, 9], 4, [[5]]) ∧
    scanIteration recordNal [0, 0, 1, 5, 0, 0, 1, 9] 4 [[5]] = none := by
  decide

end

end PublishH264
