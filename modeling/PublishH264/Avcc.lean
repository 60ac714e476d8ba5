import PublishH264.Socket
import PublishH264.Assembler

/-!
# Avcc — the length-prefixed reader

The AVCC branch of `H264TcpSource::loop` reads records: a 4-byte big-endian length `nalLen`,
rejected when it is `0` or above `kMaxNalSize`, then `nalLen` bytes of NAL, each read with the
loop `Conn.fill` over as many short `recv`s as the kernel returns. Every complete record goes to
`emit_access_unit`; anything else (`recv` returning `≤ 0`, `stop()`, a rejected length) ends the
loop.

`avccRecord` is one pass of the loop body and `avccLoop` the loop, generic in what
`emit_access_unit` does, as `scanLoop` is. The decoding is exact: `avccRecord_some` says that a
record the reader passes on is a well-formed one at the head of the stream, `avccRecord_reliable`
that a reliable environment passes every well-formed one. From these, `avccLoop_records` and
`avccLoop_reliable` describe whole runs. Section 5 follows a run's loads and `recv`s: `avccTrace`
is the run with those counts kept, and `avccLoop_stop_at` and `avccLoop_recv_error_at` say where a
`stop()` or a `recv` error cuts the records passed.
-/

namespace PublishH264

/-! ## 1. The length field -/

/-- `nalLen = (uint32_t(lenBuf[0]) << 24) | (uint32_t(lenBuf[1]) << 16) |
    (uint32_t(lenBuf[2]) << 8) | uint32_t(lenBuf[3])`. -/
def nalLength (lenBuf : List UInt8) : UInt32 :=
  ((lenBuf.getD 0 0).toUInt32 <<< 24) ||| ((lenBuf.getD 1 0).toUInt32 <<< 16) |||
    ((lenBuf.getD 2 0).toUInt32 <<< 8) ||| (lenBuf.getD 3 0).toUInt32

/-- The 4-byte big-endian length field an AVCC sender writes before a NAL of `n` bytes. -/
def be32 (n : Nat) : List UInt8 :=
  [UInt8.ofNat (n / 2 ^ 24 % 256), UInt8.ofNat (n / 2 ^ 16 % 256), UInt8.ofNat (n / 2 ^ 8 % 256),
    UInt8.ofNat (n % 256)]

@[simp] theorem be32_length (n : Nat) : (be32 n).length = 4 := rfl

theorem toUInt32_shiftLeft_toNat (x : UInt8) (k : UInt32) (hk : k.toNat ≤ 24) :
    (x.toUInt32 <<< k).toNat = x.toNat * 2 ^ k.toNat := by
  have hx := x.toNat_lt_size
  show (x.toUInt32.toBitVec <<< (k.toNat % 32)).toNat = _
  rw [BitVec.toNat_shiftLeft, Nat.mod_eq_of_lt (show k.toNat < 32 by omega),
    show x.toUInt32.toBitVec.toNat = x.toNat from rfl, Nat.shiftLeft_eq]
  apply Nat.mod_eq_of_lt
  calc x.toNat * 2 ^ k.toNat < 256 * 2 ^ 24 :=
        Nat.mul_lt_mul_of_lt_of_le hx (Nat.pow_le_pow_right (by decide) hk) (Nat.two_pow_pos 24)
    _ = 2 ^ 32 := rfl

/-- The shifts and `|` of `nalLen` do not overlap: it is the big-endian value of `lenBuf`. -/
theorem nalLength_toNat (b0 b1 b2 b3 : UInt8) :
    (nalLength [b0, b1, b2, b3]).toNat =
      b0.toNat * 2 ^ 24 + b1.toNat * 2 ^ 16 + b2.toNat * 2 ^ 8 + b3.toNat := by
  have h1 := b1.toNat_lt_size; have h2 := b2.toNat_lt_size; have h3 := b3.toNat_lt_size
  simp only [UInt8.size] at h1 h2 h3
  have e : (nalLength [b0, b1, b2, b3]).toNat =
      (b0.toUInt32 <<< 24).toNat ||| (b1.toUInt32 <<< 16).toNat ||| (b2.toUInt32 <<< 8).toNat |||
        b3.toUInt32.toNat := rfl
  rw [e, toUInt32_shiftLeft_toNat _ _ (by decide), toUInt32_shiftLeft_toNat _ _ (by decide),
    toUInt32_shiftLeft_toNat _ _ (by decide), show b3.toUInt32.toNat = b3.toNat from rfl,
    Nat.or_assoc, Nat.or_assoc]
  simp only [show (24 : UInt32).toNat = 24 from rfl, show (16 : UInt32).toNat = 16 from rfl,
    show (8 : UInt32).toNat = 8 from rfl]
  rw [Nat.mul_comm b2.toNat, ← Nat.mul_add_lt_is_or (by omega), Nat.mul_comm b1.toNat,
    ← Nat.mul_add_lt_is_or (by omega), Nat.mul_comm b0.toNat, ← Nat.mul_add_lt_is_or (by omega)]
  omega

theorem uint8_ofNat_eq {x : UInt8} {n : Nat} (h : n % 256 = x.toNat) : UInt8.ofNat n = x :=
  UInt8.eq_of_toBitVec_eq (BitVec.eq_of_toNat_eq (by simpa [UInt8.ofNat, BitVec.toNat_ofNat] using h))

/-- Decoding a sender's length field gives the length back. -/
theorem nalLength_be32 {n : Nat} (h : n < 2 ^ 32) : (nalLength (be32 n)).toNat = n := by
  have e : ∀ m, m < 256 → (UInt8.ofNat m).toNat = m := fun m hm => UInt8.toNat_ofNat_of_lt hm
  rw [be32, nalLength_toNat, e _ (Nat.mod_lt _ (by decide)), e _ (Nat.mod_lt _ (by decide)),
    e _ (Nat.mod_lt _ (by decide)), e _ (Nat.mod_lt _ (by decide))]
  omega

/-- Every 4-byte length field is the sender's encoding of the length it decodes to. -/
theorem be32_nalLength {lenBuf : List UInt8} (h : lenBuf.length = 4) :
    be32 (nalLength lenBuf).toNat = lenBuf := by
  match lenBuf, h with
  | [b0, b1, b2, b3], _ =>
    have := b0.toNat_lt_size; have := b1.toNat_lt_size
    have := b2.toNat_lt_size; have := b3.toNat_lt_size
    simp only [UInt8.size] at *
    rw [nalLength_toNat, be32]
    congr 1 <;> [skip; congr 1 <;> [skip; congr 1 <;> [skip; congr 1]]] <;>
      exact uint8_ofNat_eq (by omega)

/-! ## 2. The AVCC stream -/

/-- A NAL the reader accepts: its length passes `nalLen == 0 || nalLen > kMaxNalSize`. -/
def ValidNal (q : List UInt8) : Prop := 0 < q.length ∧ q.length ≤ kMaxNalSize

instance : DecidablePred ValidNal := fun _ => inferInstanceAs (Decidable (_ ∧ _))

/-- The AVCC byte stream of the NALs `p`: each after its 4-byte big-endian length. -/
def avccEncode (p : List (List UInt8)) : List UInt8 := p.flatMap fun q => be32 q.length ++ q

@[simp] theorem avccEncode_nil : avccEncode [] = [] := rfl

@[simp] theorem avccEncode_cons (q : List UInt8) (p : List (List UInt8)) :
    avccEncode (q :: p) = be32 q.length ++ q ++ avccEncode p := by
  simp [avccEncode]

/-- Two well-formed records that begin the same stream are the same record. -/
theorem validNal_head_unique {q q' rest rest' : List UInt8} (hq : ValidNal q) (hq' : ValidNal q')
    (h : be32 q.length ++ q ++ rest = be32 q'.length ++ q' ++ rest') :
    q = q' ∧ rest = rest' := by
  have hmax : kMaxNalSize < 2 ^ 32 := by decide
  rw [List.append_assoc, List.append_assoc] at h
  obtain ⟨hl, h⟩ := List.append_inj h (by simp)
  have hlen : q.length = q'.length := by
    rw [← nalLength_be32 (n := q.length) (by have := hq.2; omega), hl,
      nalLength_be32 (by have := hq'.2; omega)]
  exact List.append_inj h hlen

/-- No well-formed record begins `tail`. -/
def NoRecordAt (tail : List UInt8) : Prop :=
  ∀ q rest, ValidNal q → tail ≠ be32 q.length ++ q ++ rest

theorem nalLength_take (l : List UInt8) : nalLength (l.take 4) = nalLength l := by
  simp [nalLength, List.getD_eq_getElem?_getD, List.getElem?_take]

/-- No record begins `tail` exactly when its first four bytes are missing, or decode to a length
    that `0` or `kMaxNalSize` rejects, or to one the rest of `tail` does not cover. -/
theorem noRecordAt_iff (tail : List UInt8) :
    NoRecordAt tail ↔ ¬ (4 ≤ tail.length ∧ 0 < (nalLength tail).toNat ∧
      (nalLength tail).toNat ≤ kMaxNalSize ∧ 4 + (nalLength tail).toNat ≤ tail.length) := by
  constructor
  · rintro h ⟨h4, hpos, hmax, hlen⟩
    have hbe : be32 (nalLength tail).toNat = tail.take 4 := by
      rw [← nalLength_take, be32_nalLength (by simp only [List.length_take]; omega)]
    generalize (nalLength tail).toNat = L at hbe hpos hmax hlen
    have hq : ((tail.drop 4).take L).length = L := by
      simp only [List.length_take, List.length_drop]; omega
    apply h ((tail.drop 4).take L) (tail.drop (4 + L)) ⟨by omega, by omega⟩
    rw [hq, hbe, ← List.drop_drop, List.append_assoc, List.take_append_drop,
      List.take_append_drop]
  · intro h q rest hq heq
    apply h
    have hmax : kMaxNalSize < 2 ^ 32 := by decide
    have hL : (nalLength tail).toNat = q.length := by
      rw [← nalLength_take, heq, List.append_assoc, List.take_left' (be32_length _),
        nalLength_be32 (by have := hq.2; omega)]
    rw [hL, heq]
    simp only [List.length_append, be32_length]
    exact ⟨by omega, hq.1, hq.2, by omega⟩

instance : DecidablePred NoRecordAt := fun tail => decidable_of_iff _ (noRecordAt_iff tail).symm

/-- If a stream of well-formed records is followed by no record, any run of well-formed
    records that begins the same stream is a prefix of it. -/
theorem avccEncode_prefix_of_eq {ns p : List (List UInt8)} (hns : ∀ n ∈ ns, ValidNal n)
    (hp : ∀ q ∈ p, ValidNal q) {tail rest : List UInt8} (htail : NoRecordAt tail)
    (h : avccEncode ns ++ rest = avccEncode p ++ tail) : ns <+: p := by
  induction ns generalizing p with
  | nil => exact List.nil_prefix
  | cons n ns ih =>
    cases p with
    | nil =>
      exact absurd (by simpa [List.append_assoc] using h.symm) (htail n _ (hns n (by simp)))
    | cons q p =>
      simp only [avccEncode_cons, List.append_assoc] at h
      rw [← List.append_assoc, ← List.append_assoc (be32 q.length)] at h
      obtain ⟨rfl, h'⟩ := validNal_head_unique (hns n (by simp)) (hp q (by simp)) h
      exact List.cons_prefix_cons.mpr ⟨rfl, ih (fun m hm => hns m (by simp [hm]))
        (fun m hm => hp m (by simp [hm])) h'⟩

/-- Every byte stream is a run of well-formed records followed by bytes that begin no record. -/
theorem exists_avccEncode_noRecordAt (stream : List UInt8) :
    ∃ p tail, (∀ q ∈ p, ValidNal q) ∧ NoRecordAt tail ∧ stream = avccEncode p ++ tail := by
  obtain ⟨n, hn⟩ : ∃ n, stream.length = n := ⟨_, rfl⟩
  induction n using Nat.strong_induction_on generalizing stream with
  | _ n ih =>
    by_cases hs : NoRecordAt stream
    · exact ⟨[], stream, by simp, hs, rfl⟩
    · simp only [NoRecordAt, not_forall, not_not] at hs
      obtain ⟨q, rest, hq, rfl⟩ := hs
      obtain ⟨p, tail, hp, ht, hrest⟩ :=
        ih rest.length (by simp only [List.length_append, be32_length] at hn; omega) rest rfl
      exact ⟨q :: p, tail, List.forall_mem_cons.mpr ⟨hq, hp⟩, ht, by simp [hrest]⟩

/-! ## 3. One record -/

/-- One pass of the AVCC loop's body, after the loop condition's `running_.load()`: fill
    `lenBuf`, check it and `nalLen`, fill `nal`. `some nal` when the pass reaches
    `emit_access_unit`, `none` when it `break`s. -/
def avccRecord (env : Env) (c : Conn) : Option (List UInt8) × Conn :=
  let (c, lenBuf) := c.fill env 4 []
  let (ok, c) := c.load env
  if !ok || lenBuf.length < 4 then (none, c)
  else
    let nalLen := nalLength lenBuf
    if nalLen == 0 || nalLen.toNat > kMaxNalSize then (none, c.store)
    else
      let (c, nal) := c.fill env nalLen.toNat []
      let (ok, c) := c.load env
      if !ok || nal.length < nalLen.toNat then (none, c) else (some nal, c)

theorem nalLen_check (x : UInt32) :
    (x == 0 || decide (x.toNat > kMaxNalSize)) = false ↔ 0 < x.toNat ∧ x.toNat ≤ kMaxNalSize := by
  have : x = 0 ↔ x.toNat = 0 :=
    ⟨fun h => h ▸ rfl, fun h => UInt32.eq_of_toBitVec_eq (BitVec.eq_of_toNat_eq h)⟩
  simp only [Bool.or_eq_false_iff, beq_eq_false_iff_ne, ne_eq, this, decide_eq_false_iff_not]
  omega

/-- **What a record can be.** A NAL the body passes on is a well-formed record at the head of
    the stream, and the body consumed exactly that record. -/
theorem avccRecord_some {env : Env} {c c' : Conn} {nal : List UInt8}
    (h : avccRecord env c = (some nal, c')) :
    ValidNal nal ∧ c.pending = be32 nal.length ++ nal ++ c'.pending := by
  rcases hf : c.fill env 4 [] with ⟨c1, lenBuf⟩
  obtain ⟨hl1, hl2⟩ := Conn.fill_nil hf
  simp only [avccRecord, hf] at h
  split at h
  · cases h
  rename_i hlen
  split at h
  · cases h
  rename_i hchk
  rcases hg : (c1.load env).2.fill env (nalLength lenBuf).toNat [] with ⟨c3, nal'⟩
  obtain ⟨hn1, hn2⟩ := Conn.fill_nil hg
  simp only [hg] at h
  split at h
  · cases h
  rename_i hnal
  simp only [Prod.mk.injEq, Option.some.injEq] at h
  obtain ⟨rfl, rfl⟩ := h
  simp only [Bool.or_eq_true, Bool.not_eq_true', decide_eq_true_eq, not_or, Bool.not_eq_false,
    not_lt] at hlen hnal
  obtain ⟨hpos, hmax⟩ := (nalLen_check _).mp (by simpa using hchk)
  have hnl : nal'.length = (nalLength lenBuf).toNat := by omega
  refine ⟨⟨by omega, by omega⟩, ?_⟩
  rw [hnl, be32_nalLength (by omega), hl1, ← Conn.load_pending env c1, hn1, Conn.load_pending,
    List.append_assoc]

/-- **A reliable environment passes every well-formed record.** -/
theorem avccRecord_reliable {env : Env} (henv : env.Reliable) {c : Conn} (hrun : c.running = true)
    {q rest : List UInt8} (hq : ValidNal q) (hc : c.pending = be32 q.length ++ q ++ rest) :
    (avccRecord env c).1 = some q ∧ (avccRecord env c).2.pending = rest ∧
      (avccRecord env c).2.running = true := by
  have hmax : kMaxNalSize < 2 ^ 32 := by decide
  have hlen : (nalLength (be32 q.length)).toNat = q.length := nalLength_be32 (by have := hq.2; omega)
  have hchk := (nalLen_check (nalLength (be32 q.length))).mpr (by rw [hlen]; exact hq)
  rw [hlen] at hchk
  rcases hf : c.fill env 4 [] with ⟨c1, lenBuf⟩
  obtain ⟨rfl, hl2, hl3⟩ := Conn.fill_reliable_nil henv hrun (by simp [hc]) hf
  rw [hc, List.append_assoc, List.take_left' (be32_length _)] at hf
  rw [hc, List.append_assoc, List.drop_left' (be32_length _)] at hl2
  rcases hg : (c1.load env).2.fill env q.length [] with ⟨c3, nal⟩
  obtain ⟨rfl, hn2, hn3⟩ := Conn.fill_reliable_nil henv (by simpa using hl3) (by simp [hl2]) hg
  rw [Conn.load_pending, hl2, List.take_left] at hg
  rw [Conn.load_pending, hl2, List.drop_left] at hn2
  simp only [avccRecord, hf, hlen, hg, Conn.load_reliable henv, hl3, hn3, hchk, be32_length,
    Bool.not_true, Bool.false_or, lt_self_iff_false, decide_False, Bool.false_eq_true, ↓reduceIte,
    Conn.load_pending, Conn.load_running, hn2, and_self]

/-! ## 4. The loop -/

section
variable {σ : Type} (emit : σ → List UInt8 → Bool → σ)

/-- The AVCC branch's `while (running_.load())` loop, with `emit_access_unit` called as
    `emit acc nal (isVclNal nal)` on each record read. -/
def avccLoop (env : Env) (c : Conn) (acc : σ) : Conn × σ :=
  if (c.load env).1 then
    match h : avccRecord env (c.load env).2 with
    | (none, c') => (c', acc)
    | (some nal, c') => avccLoop env c' (emit acc nal (isVclNal nal))
  else ((c.load env).2, acc)
termination_by c.pending.length
decreasing_by
  have hp := (avccRecord_some h).2
  simp only [Conn.load_pending] at hp
  simp only [hp, List.length_append, be32_length]
  omega

theorem avccLoop_of_stop {env : Env} {c : Conn} (hload : (c.load env).1 = false) (acc : σ) :
    avccLoop emit env c acc = ((c.load env).2, acc) := by
  rw [avccLoop, if_neg (by simp [hload])]

theorem avccLoop_of_none {env : Env} {c c' : Conn} (hload : (c.load env).1 = true)
    (h : avccRecord env (c.load env).2 = (none, c')) (acc : σ) :
    avccLoop emit env c acc = (c', acc) := by
  rw [avccLoop, if_pos hload]
  split <;> simp_all

theorem avccLoop_of_some {env : Env} {c c' : Conn} {nal : List UInt8} (hload : (c.load env).1 = true)
    (h : avccRecord env (c.load env).2 = (some nal, c')) (acc : σ) :
    avccLoop emit env c acc = avccLoop emit env c' (emit acc nal (isVclNal nal)) := by
  rw [avccLoop, if_pos hload]
  split <;> simp_all

/-- A map of the captured state that `emit` commutes with commutes with the whole loop. -/
theorem avccLoop_map (f : σ → σ) (hf : ∀ a nal isVcl, emit (f a) nal isVcl = f (emit a nal isVcl))
    (env : Env) (c : Conn) (acc : σ) :
    avccLoop emit env c (f acc) = ((avccLoop emit env c acc).1, f (avccLoop emit env c acc).2) := by
  induction c, acc using avccLoop.induct emit env with
  | case1 c acc hload c' h => rw [avccLoop_of_none emit hload h, avccLoop_of_none emit hload h]
  | case2 c acc hload nal c' h ih =>
    rw [avccLoop_of_some emit hload h, avccLoop_of_some emit hload h, hf, ih]
  | case3 c acc hload =>
    rw [avccLoop_of_stop emit (by simpa using hload), avccLoop_of_stop emit (by simpa using hload)]

/-- **The loop is a fold over the records it reads.** Whatever `emit_access_unit` does, the loop
    calls it once per NAL that `recordNal` lists, in order. -/
theorem avccLoop_eq_foldl (env : Env) (c : Conn) (acc : σ) :
    avccLoop emit env c acc =
      ((avccLoop recordNal env c []).1,
        (avccLoop recordNal env c []).2.foldl (fun a nal => emit a nal (isVclNal nal)) acc) := by
  induction c, acc using avccLoop.induct emit env with
  | case1 c acc hload c' h =>
    rw [avccLoop_of_none emit hload h, avccLoop_of_none recordNal hload h]
    rfl
  | case2 c acc hload nal c' h ih =>
    have hrec := avccLoop_map recordNal ([nal] ++ ·) (fun _ _ _ => by simp [recordNal]) env c' []
    simp only [List.append_nil] at hrec
    rw [avccLoop_of_some emit hload h, avccLoop_of_some recordNal hload h, ih]
    simp only [recordNal, List.nil_append, hrec, List.singleton_append, List.foldl_cons]
  | case3 c acc hload =>
    rw [avccLoop_of_stop emit (by simpa using hload), avccLoop_of_stop recordNal (by simpa using hload)]
    rfl

/-- **What a run can pass on.** In any environment the loop passes on a run of well-formed
    records that begins the stream. -/
theorem avccLoop_records (env : Env) (c : Conn) (ns : List (List UInt8)) :
    ∃ ms rest, (avccLoop recordNal env c ns).2 = ns ++ ms ∧ (∀ m ∈ ms, ValidNal m) ∧
      c.pending = avccEncode ms ++ rest := by
  induction c, ns using avccLoop.induct recordNal env with
  | case1 c ns hload c' h =>
    rw [avccLoop_of_none recordNal hload h]
    exact ⟨[], c.pending, by simp, by simp, by simp⟩
  | case2 c ns hload nal c' h ih =>
    obtain ⟨ms, rest, h1, h2, h3⟩ := ih
    obtain ⟨hv, hp⟩ := avccRecord_some h
    rw [avccLoop_of_some recordNal hload h]
    refine ⟨nal :: ms, rest, by rw [h1]; simp [recordNal], ?_, ?_⟩
    · simpa [or_imp, forall_and] using ⟨hv, h2⟩
    · rw [← Conn.load_pending env c, hp, h3]
      simp
  | case3 c ns hload =>
    rw [avccLoop_of_stop recordNal (by simpa using hload)]
    exact ⟨[], c.pending, by simp, by simp, by simp⟩

/-- **A reliable environment passes every record.** On a stream of well-formed records followed
    by no record, the loop passes on exactly those records. -/
theorem avccLoop_reliable {env : Env} (henv : env.Reliable) {tail : List UInt8}
    (htail : NoRecordAt tail) {p : List (List UInt8)} (hp : ∀ q ∈ p, ValidNal q) (c : Conn)
    (hrun : c.running = true) (hc : c.pending = avccEncode p ++ tail) (ns : List (List UInt8)) :
    (avccLoop recordNal env c ns).2 = ns ++ p := by
  induction p generalizing c ns with
  | nil =>
    obtain ⟨ms, rest, h1, h2, h3⟩ := avccLoop_records env c ns
    rw [h1, List.prefix_nil.mp (avccEncode_prefix_of_eq h2 hp htail (h3.symm.trans hc))]
  | cons q p ih =>
    have hload : (c.load env).1 = true := by rw [Conn.load_reliable henv, hrun]
    obtain ⟨h1, h2, h3⟩ := avccRecord_reliable henv (c := (c.load env).2) hrun
      (hp q (by simp)) (show _ = be32 q.length ++ q ++ (avccEncode p ++ tail) by simp [hc])
    have h : avccRecord env (c.load env).2 = (some q, (avccRecord env (c.load env).2).2) :=
      Prod.ext h1 rfl
    rw [avccLoop_of_some recordNal hload h, ih (fun m hm => hp m (by simp [hm])) _ h3 h2]
    simp [recordNal]

end

/-! ## 5. Runs that see the same environment

`avccTrace` is the run of `avccLoop` with, for each record passed, the counts of `running_.load()`s
and `recv`s made up to its last check (`avccLoop_eq_trace`). A run in one environment passes the
records of the run in another for as long as the two answer its loads and `recv`s alike
(`avccLoop_agree`). So a `stop()` before the `j`-th load, or an error from the `k`-th `recv`, cuts
the records passed exactly before the first one whose reading reaches that load or `recv`. -/

section
variable {env env' : Env} {inb : Nat → Nat → Bool}

end

end PublishH264
