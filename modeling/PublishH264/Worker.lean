import PublishH264.Avcc
import PublishH264.AnnexB.Stream

/-!
# Worker — `H264TcpSource::loop()`

The worker thread connects, then runs the branch of its framing until the branch's loop ends,
and stores `running_ = false`. `annexBLoop` is the Annex-B branch's read loop around
`annexBIteration`; `avccLoop` (module `Avcc`) is the AVCC branch. Both are generic in
`emit_access_unit`, so `loop` at `recordNal` lists the NALs passed and at `deliver` the access
units handed to `callback_`. The socket address and `connectTcp` are outside the model: whether
the connection succeeded is the argument `connected`.

The Annex-B worker is the chunk model of `AnnexB.Step` run on the chunks `recv` returned
(`annexBLoop_chunks`); in a reliable environment those chunks are the whole stream, so the
worker's result does not depend on how `recv` cut it (`annexBLoop_reliable_eq`). In any other
environment they begin the stream, and the worker passes the first of the stream's NALs
(`loop_annexB_any_environment`).

Section 5 looks at the worker from the access units' side: an interrupted worker hands on a
prefix of what a reliable one does, in either framing (`loop_deliver_prefix_of_reliable`); the
Annex-B worker's output read back by a second worker gives the same access units
(`loop_annexB_republishes`), all but the last when nothing follows them
(`loop_annexB_holds_back_last`); and NALs both framings carry are handed on alike
(`loop_avcc_annexB_agree`).
-/

namespace PublishH264

/-- `H264Framing`: length-prefixed AVC or an Annex-B byte stream. -/
inductive H264Framing where
  | avcc
  | annexB
deriving Repr, DecidableEq

/-! ## 1. The Annex-B read loop -/

section
variable {σ : Type} (emit : σ → List UInt8 → Bool → σ)

/-- The Annex-B branch's `while (running_.load())` loop: `recv` up to `kReadChunkSize` bytes, end
    with `running_.store(false)` on a result `≤ 0`, else one iteration on the chunk. -/
def annexBLoop (env : Env) (c : Conn) (streamBuf : List UInt8) (acc : σ) :
    Conn × List UInt8 × σ :=
  if (c.load env).1 then
    match h : (c.load env).2.recv env kReadChunkSize with
    | (none, c') => (c'.store, streamBuf, acc)
    | (some chunk, c') =>
      annexBLoop env c' (annexBIteration emit streamBuf acc chunk).1
        (annexBIteration emit streamBuf acc chunk).2
  else ((c.load env).2, streamBuf, acc)
termination_by c.pending.length
decreasing_by
  obtain ⟨hb, -, hp, -⟩ := Conn.recv_some h
  simp only [Conn.load_pending] at hp
  simp only [hp, List.length_append]
  omega

theorem annexBLoop_of_stop {env : Env} {c : Conn} (hload : (c.load env).1 = false)
    (streamBuf : List UInt8) (acc : σ) :
    annexBLoop emit env c streamBuf acc = ((c.load env).2, streamBuf, acc) := by
  rw [annexBLoop, if_neg (by simp [hload])]

theorem annexBLoop_of_none {env : Env} {c c' : Conn} (hload : (c.load env).1 = true)
    (h : (c.load env).2.recv env kReadChunkSize = (none, c')) (streamBuf : List UInt8) (acc : σ) :
    annexBLoop emit env c streamBuf acc = (c'.store, streamBuf, acc) := by
  rw [annexBLoop, if_pos hload]
  split <;> simp_all

theorem annexBLoop_of_some {env : Env} {c c' : Conn} {chunk : List UInt8}
    (hload : (c.load env).1 = true) (h : (c.load env).2.recv env kReadChunkSize = (some chunk, c'))
    (streamBuf : List UInt8) (acc : σ) :
    annexBLoop emit env c streamBuf acc =
      annexBLoop emit env c' (annexBIteration emit streamBuf acc chunk).1
        (annexBIteration emit streamBuf acc chunk).2 := by
  rw [annexBLoop, if_pos hload]
  split <;> simp_all

/-- **The worker runs the chunk model.** In any environment the Annex-B loop ends in the state
    that the iterations on the chunks `recv` returned reach; the chunks are nonempty, at most
    `kReadChunkSize` long, and begin the stream. -/
theorem annexBLoop_chunks (env : Env) (c : Conn) (streamBuf : List UInt8) (acc : σ) :
    ∃ chunks : List (List UInt8), (∀ ch ∈ chunks, 0 < ch.length ∧ ch.length ≤ kReadChunkSize) ∧
      c.pending = chunks.flatten ++ (annexBLoop emit env c streamBuf acc).1.pending ∧
      (annexBLoop emit env c streamBuf acc).2 = annexBRunWith emit streamBuf acc chunks := by
  induction c, streamBuf, acc using annexBLoop.induct emit env with
  | case1 c streamBuf acc hload c' h =>
    rw [annexBLoop_of_none emit hload h]
    exact ⟨[], by simp, by simp [(Conn.recv_none h).1], rfl⟩
  | case2 c streamBuf acc hload chunk c' h ih =>
    obtain ⟨chunks, h1, h2, h3⟩ := ih
    obtain ⟨hpos, hle, hp, -⟩ := Conn.recv_some h
    rw [annexBLoop_of_some emit hload h]
    refine ⟨chunk :: chunks, ?_, ?_, by rw [h3]; rfl⟩
    · exact List.forall_mem_cons.mpr ⟨⟨hpos, hle⟩, h1⟩
    · rw [← Conn.load_pending env c, hp, h2, List.flatten_cons, List.append_assoc]
  | case3 c streamBuf acc hload =>
    rw [annexBLoop_of_stop emit (by simpa using hload)]
    exact ⟨[], by simp, by simp, rfl⟩

/-- In a reliable environment the Annex-B loop reads the stream to its end: nothing but the end
    of the stream stops it. -/
theorem annexBLoop_reads_all {env : Env} (henv : env.Reliable) (c : Conn) (hrun : c.running = true)
    (streamBuf : List UInt8) (acc : σ) :
    (annexBLoop emit env c streamBuf acc).1.pending = [] := by
  induction c, streamBuf, acc using annexBLoop.induct emit env with
  | case1 c streamBuf acc hload c' h =>
    rw [annexBLoop_of_none emit hload h, Conn.store_pending, (Conn.recv_none h).1,
      Conn.load_pending]
    by_contra hne
    obtain ⟨n, -, -, hr⟩ := Conn.recv_reliable henv (c.load env).2 (by decide : 0 < kReadChunkSize)
      (by simpa using hne)
    rw [hr] at h
    cases h
  | case2 c streamBuf acc hload chunk c' h ih =>
    rw [annexBLoop_of_some emit hload h]
    exact ih (by rw [(Conn.recv_some h).2.2.2, Conn.load_running, hrun])
  | case3 c streamBuf acc hload =>
    rw [Conn.load_reliable henv, hrun] at hload
    cases hload rfl

/-- **Chunking does not reach the worker.** In every reliable environment the Annex-B loop from
    an empty `stream_buf` ends as one iteration on the whole stream does. -/
theorem annexBLoop_reliable_eq {env : Env} (henv : env.Reliable) (stream : List UInt8) (acc : σ) :
    (annexBLoop emit env (Conn.init stream) [] acc).2 = annexBIteration emit [] acc stream := by
  obtain ⟨chunks, -, h2, h3⟩ := annexBLoop_chunks emit env (Conn.init stream) [] acc
  rw [annexBLoop_reads_all emit henv _ rfl, List.append_nil] at h2
  rw [h3, annexBRunWith_nil, ← h2]
  rfl

/-- A stream with no start code stays whole in `stream_buf` and passes no NAL. -/
theorem annexBLoop_no_startCode {env : Env} (henv : env.Reliable) {stream : List UInt8}
    (h : findStartCode stream 0 = none) :
    (annexBLoop recordNal env (Conn.init stream) [] []).2 = (stream, []) := by
  rw [annexBLoop_reliable_eq recordNal henv]
  simp [annexBIteration, scanLoop_zero_of_none recordNal h]

/-- A map of the captured state that `emit` commutes with commutes with the whole read loop. -/
theorem annexBLoop_map (f : σ → σ) (hf : ∀ a nal isVcl, emit (f a) nal isVcl = f (emit a nal isVcl))
    (env : Env) (c : Conn) (streamBuf : List UInt8) (acc : σ) :
    annexBLoop emit env c streamBuf (f acc) =
      ((annexBLoop emit env c streamBuf acc).1, (annexBLoop emit env c streamBuf acc).2.1,
        f (annexBLoop emit env c streamBuf acc).2.2) := by
  induction c, streamBuf, acc using annexBLoop.induct emit env with
  | case1 c streamBuf acc hload c' h =>
    rw [annexBLoop_of_none emit hload h, annexBLoop_of_none emit hload h]
  | case2 c streamBuf acc hload chunk c' h ih =>
    have hit : annexBIteration emit streamBuf (f acc) chunk =
        ((annexBIteration emit streamBuf acc chunk).1, f (annexBIteration emit streamBuf acc chunk).2) := by
      simp only [annexBIteration, scanLoop_map emit f hf]
    rw [annexBLoop_of_some emit hload h, annexBLoop_of_some emit hload h, hit, ih]
  | case3 c streamBuf acc hload =>
    rw [annexBLoop_of_stop emit (by simpa using hload), annexBLoop_of_stop emit (by simpa using hload)]

/-- **The read loop is a fold over the NALs it passes.** Whatever `emit_access_unit` does, the
    loop calls it once per NAL that `recordNal` lists, in order, in every environment. -/
theorem annexBLoop_eq_foldl (env : Env) (c : Conn) (streamBuf : List UInt8) (acc : σ) :
    annexBLoop emit env c streamBuf acc =
      ((annexBLoop recordNal env c streamBuf []).1, (annexBLoop recordNal env c streamBuf []).2.1,
        (annexBLoop recordNal env c streamBuf []).2.2.foldl (fun a nal => emit a nal (isVclNal nal))
          acc) := by
  induction c, streamBuf, acc using annexBLoop.induct emit env with
  | case1 c streamBuf acc hload c' h =>
    rw [annexBLoop_of_none emit hload h, annexBLoop_of_none recordNal hload h]
    rfl
  | case2 c streamBuf acc hload chunk c' h ih =>
    have hrec := annexBLoop_map recordNal ((annexBIteration recordNal streamBuf [] chunk).2 ++ ·)
      (fun _ _ _ => by simp [recordNal]) env c' (annexBIteration recordNal streamBuf [] chunk).1 []
    simp only [List.append_nil] at hrec
    rw [annexBLoop_of_some emit hload h, annexBLoop_of_some recordNal hload h, ih,
      annexBIteration_eq_foldl emit, hrec, List.foldl_append]
  | case3 c streamBuf acc hload =>
    rw [annexBLoop_of_stop emit (by simpa using hload),
      annexBLoop_of_stop recordNal (by simpa using hload)]
    rfl

/-! ## 2. The worker -/

/-- `H264TcpSource::loop()` with the peer sending `stream`, from the captured state `acc` of
    `emit_access_unit`; `connected` is whether `connectTcp` returned a socket. Every path ends
    with `running_.store(false)`. -/
def loop (env : Env) (connected : Bool) (framing : H264Framing) (stream : List UInt8) (acc : σ) :
    Conn × σ :=
  if !connected then ((Conn.init stream).store, acc)
  else
    match framing with
    | .annexB =>
      let r := annexBLoop emit env (Conn.init stream) [] acc
      (r.1.store, r.2.2)
    | .avcc =>
      let r := avccLoop emit env (Conn.init stream) acc
      (r.1.store, r.2)

@[simp] theorem loop_running (env : Env) (connected : Bool) (framing : H264Framing)
    (stream : List UInt8) (acc : σ) : (loop emit env connected framing stream acc).1.running = false := by
  unfold loop
  split
  · rfl
  · split <;> rfl

theorem loop_avcc (env : Env) (stream : List UInt8) (acc : σ) :
    (loop emit env true .avcc stream acc).2 = (avccLoop emit env (Conn.init stream) acc).2 := rfl

theorem loop_annexB (env : Env) (stream : List UInt8) (acc : σ) :
    (loop emit env true .annexB stream acc).2 = (annexBLoop emit env (Conn.init stream) [] acc).2.2 :=
  rfl

end

/-! ## 3. The AVCC worker -/

/-- The access units `loop()` hands to `callback_` are the assembler's output on the NALs it
    passes to `emit_access_unit`. -/
theorem loop_avcc_deliver (env : Env) (stream : List UInt8) :
    (loop deliver env true .avcc stream (Assembler.empty, [])).2 =
      runAssembler (Assembler.empty, []) (loop recordNal env true .avcc stream []).2 := by
  rw [loop_avcc, loop_avcc, avccLoop_eq_foldl]
  rfl

/-- **What the AVCC worker accepts.** Whatever bytes arrive, in every environment, each NAL passed
    to `emit_access_unit` is 1 to `kMaxNalSize` bytes long, and the stream begins with exactly
    their records: a 4-byte big-endian length, then that many bytes. -/
theorem loop_avcc_accepts_records (env : Env) (stream : List UInt8) :
    (∀ q ∈ (loop recordNal env true .avcc stream []).2, ValidNal q) ∧
    ∃ rest, stream = avccEncode (loop recordNal env true .avcc stream []).2 ++ rest := by
  obtain ⟨ms, rest, h1, h2, h3⟩ := avccLoop_records env (Conn.init stream) []
  rw [loop_avcc, h1, List.nil_append]
  exact ⟨h2, rest, h3⟩

/-! ## 4. The Annex-B worker -/

/-- **The Annex-B worker delivers what the scan and the assembler make of the whole stream.** In
    every reliable environment, whatever sizes `recv` returns, the access units handed to
    `callback_` are the assembler's on the NALs the start-code scan finds in the whole stream. -/
theorem loop_annexB_delivers {env : Env} (henv : env.Reliable) (stream : List UInt8) :
    (loop deliver env true .annexB stream (Assembler.empty, [])).2 =
      runAssembler (Assembler.empty, []) (annexBNals [stream]) := by
  rw [loop_annexB, annexBLoop_reliable_eq deliver henv, annexBIteration_eq_foldl]
  rfl

/-- An SPS and an IDR slice followed by a start code, received one byte per `recv`. -/
theorem loop_annexB_delivers_bytewise :
    (loop deliver ⟨fun _ => 1, none⟩ true .annexB [0, 0, 0, 1, 0x67, 0, 0, 1, 0x65, 0x88, 0, 0, 1, 9]
        (Assembler.empty, [])).2 =
      runAssembler (Assembler.empty, []) (annexBNals [[0, 0, 0, 1, 0x67, 0, 0, 1, 0x65, 0x88, 0, 0, 1, 9]]) :=
  loop_annexB_delivers ⟨rfl, fun _ => Nat.one_pos⟩ _

/-- **Whatever happens, the Annex-B worker passes the stream's first NALs.** In every environment
    (`stop()` at any point, a `recv` error, `recv` returning any sizes) the NALs passed to
    `emit_access_unit` begin those the scan finds in the whole stream, so also at every time, as
    a `stop()` there would leave them; the access units handed to `callback_` are the assembler's
    on them; and `running_` is `false` at the end. -/
theorem loop_annexB_any_environment (env : Env) (stream : List UInt8) :
    (loop recordNal env true .annexB stream []).2 <+: annexBNals [stream] ∧
    (loop deliver env true .annexB stream (Assembler.empty, [])).2 =
      runAssembler (Assembler.empty, []) (loop recordNal env true .annexB stream []).2 ∧
    (loop deliver env true .annexB stream (Assembler.empty, [])).1.running = false := by
  refine ⟨?_, by rw [loop_annexB, loop_annexB, annexBLoop_eq_foldl deliver]; rfl, loop_running ..⟩
  obtain ⟨chunks, -, h2, h3⟩ := annexBLoop_chunks recordNal env (Conn.init stream) [] []
  have h := annexBNals_append chunks (annexBLoop recordNal env (Conn.init stream) [] []).1.pending
  rw [← show stream = _ from h2] at h
  rwa [loop_annexB, h3]

/-- A delimitable NAL between two start codes, with one byte after the second, is passed whole,
    whatever its length. -/
theorem loop_annexB_passes_delimited {env : Env} (henv : env.Reliable) {s n s' : List UInt8}
    (hs : IsStartCode s) (hn : Delimitable n) (hs' : IsStartCode s') (x : UInt8) :
    (loop recordNal env true .annexB (s ++ n ++ s' ++ [x]) []).2 = [n] := by
  have h := @scanLoop_decodes_closed [] [(s, n)] (by simp) (by simpa using ⟨hs, hn⟩) s' hs' x
  simp only [List.nil_append, frameUnits_cons, frameUnits_nil, List.append_nil, List.map_cons,
    List.map_nil] at h
  rw [loop_annexB, annexBLoop_reliable_eq recordNal henv]
  simpa [annexBIteration] using h

theorem no_001_replicate (n : Nat) : ¬ [0, 0, 1] <:+: List.replicate n (0xff : UInt8) := fun h => by
  have := h.subset (List.mem_cons_self 0 _)
  simp [List.mem_replicate] at this

/-- **The Annex-B path enforces no size limit.** In every reliable environment: a stream without
    a start code stays whole in `stream_buf`, however long, and no NAL is passed; a delimitable NAL
    of any length between two start codes is passed whole; and the loop reads the stream to its
    end, so no length ends the session. -/
theorem annexB_no_size_limit {env : Env} (henv : env.Reliable) :
    (∀ stream, findStartCode stream 0 = none →
      (annexBLoop recordNal env (Conn.init stream) [] []).2 = (stream, [])) ∧
    (∀ s n s' x, IsStartCode s → Delimitable n → IsStartCode s' →
      (loop recordNal env true .annexB (s ++ n ++ s' ++ [x]) []).2 = [n]) ∧
    (∀ stream, (annexBLoop recordNal env (Conn.init stream) [] []).1.pending = []) :=
  ⟨fun _ h => annexBLoop_no_startCode henv h,
    fun _ _ _ x hs hn hs' => loop_annexB_passes_delimited henv hs hn hs' x,
    fun _ => annexBLoop_reads_all recordNal henv _ rfl [] []⟩

/-- One `recv` of up to 64 KiB at a time: an IDR slice between two start codes is passed. -/
theorem annexB_no_size_limit_idr :
    (loop recordNal ⟨fun _ => kReadChunkSize, none⟩ true .annexB
        ([0, 0, 1] ++ [0x65, 0x88] ++ [0, 0, 0, 1] ++ [9]) []).2 = [[0x65, 0x88]] :=
  (annexB_no_size_limit ⟨rfl, fun _ => show 0 < kReadChunkSize by decide⟩).2.1 [0, 0, 1] [0x65, 0x88] [0, 0, 0, 1] 9
    (by decide) (by decide) (by decide)

/-- A start-code-free run of `kMaxNalSize + kReadChunkSize + 5` bytes,
    received in full 64 KiB chunks, is read to its end and held whole in `stream_buf`; and a NAL
    of `kMaxNalSize + 1` bytes between two start codes is passed to `emit_access_unit`. -/
theorem annexB_buffers_and_passes_past_kMaxNalSize :
    (annexBLoop recordNal ⟨fun _ => kReadChunkSize, none⟩
        (Conn.init (List.replicate (kMaxNalSize + kReadChunkSize + 5) 0xff)) [] []).2.1.length >
      kMaxNalSize + kReadChunkSize + 4 ∧
    (loop recordNal ⟨fun _ => kReadChunkSize, none⟩ true .annexB
        ([0, 0, 1] ++ List.replicate (kMaxNalSize + 1) 0xff ++ [0, 0, 1] ++ [9]) []).2 =
      [List.replicate (kMaxNalSize + 1) 0xff] := by
  have henv : Env.Reliable ⟨fun _ => kReadChunkSize, none⟩ := ⟨rfl, fun _ => show 0 < kReadChunkSize by decide⟩
  refine ⟨?_, loop_annexB_passes_delimited henv (by decide) ⟨by simp, no_001_replicate _, ?_⟩
    (by decide) 9⟩
  · rw [annexBLoop_no_startCode henv (by
      rw [findStartCode_eq_firstStartCode, List.drop_zero, firstStartCode_of_no_001 (no_001_replicate _)]
      rfl)]
    simp
  · simp [List.getLast?_replicate]

/-! ## 5. Every environment, both framings, and the worker's own output

`loop` at `deliver` is the assembler run on what `loop` at `recordNal` passes, whatever the
framing. An interrupted worker passes a prefix of what a reliable one passes, so it hands on a
prefix of the same access units. The access units carry their NALs behind `kStartCode`, free of
`00 00 01`, so an Annex-B worker fed them back hands on the same access units; and well-formed
NALs framed either way are handed on alike. -/

/-- The access units `loop()` hands to `callback_` are the assembler's output on the NALs it
    passes to `emit_access_unit`, whatever the framing. -/
theorem loop_deliver (env : Env) (connected : Bool) (framing : H264Framing) (stream : List UInt8) :
    (loop deliver env connected framing stream (Assembler.empty, [])).2 =
      runAssembler (Assembler.empty, []) (loop recordNal env connected framing stream []).2 := by
  cases connected
  · rfl
  · cases framing
    · exact loop_avcc_deliver env stream
    · rw [loop_annexB, loop_annexB, annexBLoop_eq_foldl deliver]; rfl

theorem loop_annexB_reliable_nals {env : Env} (henv : env.Reliable) (stream : List UInt8) :
    (loop recordNal env true .annexB stream []).2 = annexBNals [stream] := by
  rw [loop_annexB, annexBLoop_reliable_eq recordNal henv]
  rfl

theorem loop_annexB_nals_begin (env : Env) (stream : List UInt8) :
    (loop recordNal env true .annexB stream []).2 <+: annexBNals [stream] := by
  obtain ⟨chunks, -, h2, h3⟩ := annexBLoop_chunks recordNal env (Conn.init stream) [] []
  have h := annexBNals_append chunks (annexBLoop recordNal env (Conn.init stream) [] []).1.pending
  rw [← show stream = _ from h2] at h
  rwa [loop_annexB, h3]

theorem loop_avcc_reliable_records {env : Env} (henv : env.Reliable) {stream tail : List UInt8}
    {p : List (List UInt8)} (hp : ∀ q ∈ p, ValidNal q) (ht : NoRecordAt tail)
    (hs : stream = avccEncode p ++ tail) :
    (loop recordNal env true .avcc stream []).2 = p := by
  rw [loop_avcc, avccLoop_reliable henv ht hp _ rfl hs, List.nil_append]

/-- In every environment the worker passes a prefix of the NALs a reliable one passes. -/
theorem loop_nals_prefix_of_reliable {env' : Env} (henv' : env'.Reliable) (env : Env)
    (connected : Bool) (framing : H264Framing) (stream : List UInt8) :
    (loop recordNal env connected framing stream []).2 <+: (loop recordNal env' true framing stream []).2 := by
  cases connected
  · exact List.nil_prefix
  · cases framing
    · obtain ⟨p, tail, hp, ht, hs⟩ := exists_avccEncode_noRecordAt stream
      obtain ⟨ms, rest, h1, h2, h3⟩ := avccLoop_records env (Conn.init stream) []
      rw [loop_avcc_reliable_records henv' hp ht hs, loop_avcc, h1, List.nil_append]
      exact avccEncode_prefix_of_eq h2 hp ht (h3.symm.trans hs)
    · rw [loop_annexB_reliable_nals henv']
      exact loop_annexB_nals_begin env stream

/-- The access units an Annex-B worker hands on, in any environment, are those of groups closed
    by VCL NALs, each NAL nonempty and free of `00 00 01`. -/
theorem loop_annexB_deliver_groups (env : Env) (stream : List UInt8) :
    ∃ gs : List (List (List UInt8)), (∀ g ∈ gs, ClosedByVcl g) ∧
      (∀ n ∈ gs.flatten, n ≠ [] ∧ ¬ [0, 0, 1] <:+: n) ∧
      (loop deliver env true .annexB stream (Assembler.empty, [])).2.2 = gs.map accessUnitOf := by
  obtain ⟨gs, tail, hnals, hgs, -, hout, -⟩ :=
    assembledFrom_runAssembler (loop recordNal env true .annexB stream []).2
  refine ⟨gs, hgs, fun n hn => annexBNals_wellFormed [stream] n ?_, by rw [loop_deliver, hout]⟩
  exact (loop_annexB_nals_begin env stream).subset (hnals ▸ List.mem_append_left _ hn)

/-- **Stopping or a failed `recv` only cuts the output short.** Whatever the framing, in every
    environment (`stop()` at any time, a `recv` error, `recv` returning any sizes), and whether
    or not the connection succeeded, the access units handed to `callback_` begin those a
    reliable environment hands on for the same stream: none is changed, reordered or added. Two
    reliable environments hand on the same access units. -/
theorem loop_deliver_prefix_of_reliable {env' : Env} (henv' : env'.Reliable) (env : Env)
    (connected : Bool) (framing : H264Framing) (stream : List UInt8) :
    (loop deliver env connected framing stream (Assembler.empty, [])).2.2 <+:
      (loop deliver env' true framing stream (Assembler.empty, [])).2.2 ∧
    (env.Reliable → (loop deliver env true framing stream (Assembler.empty, [])).2.2 =
      (loop deliver env' true framing stream (Assembler.empty, [])).2.2) := by
  have hpre : ∀ {e e' : Env}, e'.Reliable → ∀ c : Bool,
      (loop deliver e c framing stream (Assembler.empty, [])).2.2 <+:
        (loop deliver e' true framing stream (Assembler.empty, [])).2.2 := fun he' c => by
    rw [loop_deliver, loop_deliver]
    exact runAssembler_mono (loop_nals_prefix_of_reliable he' _ c framing stream) _
  exact ⟨hpre henv' connected, fun henv =>
    (hpre henv' true).eq_of_length (Nat.le_antisymm (hpre henv' true).length_le (hpre henv true).length_le)⟩

/-- Three bytes per `recv` and `stop()` before the fourth `running_.load()`: the worker hands on
    the IDR access unit and stops before the next one, which a byte-at-a-time reliable worker
    hands on as well. -/
theorem loop_deliver_prefix_stopped :
    (loop deliver ⟨fun _ => 3, some 3⟩ true .annexB [0, 0, 1, 0x65, 0x88, 0, 0, 1, 0x41, 0x9a, 0, 0, 1, 9]
        (Assembler.empty, [])).2.2 <+:
      (loop deliver ⟨fun _ => 1, none⟩ true .annexB [0, 0, 1, 0x65, 0x88, 0, 0, 1, 0x41, 0x9a, 0, 0, 1, 9]
        (Assembler.empty, [])).2.2 ∧
    (Env.Reliable ⟨fun _ => 3, some 3⟩ →
      (loop deliver ⟨fun _ => 3, some 3⟩ true .annexB [0, 0, 1, 0x65, 0x88, 0, 0, 1, 0x41, 0x9a, 0, 0, 1, 9]
          (Assembler.empty, [])).2.2 =
        (loop deliver ⟨fun _ => 1, none⟩ true .annexB [0, 0, 1, 0x65, 0x88, 0, 0, 1, 0x41, 0x9a, 0, 0, 1, 9]
          (Assembler.empty, [])).2.2) :=
  loop_deliver_prefix_of_reliable ⟨rfl, fun _ => Nat.one_pos⟩ _ true .annexB _

/-- **A reliable AVCC worker reads every record.** In every reliable environment, on any stream,
    the NALs passed are well formed and the stream is their records followed by bytes that begin
    no well-formed record: the worker stops only where the records end. -/
theorem loop_avcc_reads_every_record {env : Env} (henv : env.Reliable) (stream : List UInt8) :
    (∀ q ∈ (loop recordNal env true .avcc stream []).2, ValidNal q) ∧
    ∃ tail, NoRecordAt tail ∧ stream = avccEncode (loop recordNal env true .avcc stream []).2 ++ tail := by
  obtain ⟨p, tail, hp, ht, hs⟩ := exists_avccEncode_noRecordAt stream
  rw [loop_avcc_reliable_records henv hp ht hs]
  exact ⟨hp, tail, ht, hs⟩

/-- Byte at a time, a record, then a length field of `0`: only the record is read. -/
theorem loop_avcc_reads_every_record_bytewise :
    (∀ q ∈ (loop recordNal ⟨fun _ => 1, none⟩ true .avcc [0, 0, 0, 2, 0x65, 0x88, 0, 0, 0, 0] []).2,
        ValidNal q) ∧
    ∃ tail, NoRecordAt tail ∧ [0, 0, 0, 2, 0x65, 0x88, 0, 0, 0, 0] =
      avccEncode (loop recordNal ⟨fun _ => 1, none⟩ true .avcc [0, 0, 0, 2, 0x65, 0x88, 0, 0, 0, 0] []).2 ++
        tail :=
  loop_avcc_reads_every_record ⟨rfl, fun _ => Nat.one_pos⟩ _

/-- **The Annex-B worker's output reads back as itself.** Whatever the environment of a first
    Annex-B worker, the bytes of the access units it hands on, followed by `kStartCode` and one
    more byte, make a second Annex-B worker in any reliable environment hand on the same access
    units, keyframe flags included. -/
theorem loop_annexB_republishes {env' : Env} (henv' : env'.Reliable) (env : Env) (stream : List UInt8)
    (x : UInt8) :
    (loop deliver env' true .annexB
        (((loop deliver env true .annexB stream (Assembler.empty, [])).2.2.map (·.data)).flatten ++
          kStartCode ++ [x]) (Assembler.empty, [])).2.2 =
      (loop deliver env true .annexB stream (Assembler.empty, [])).2.2 := by
  obtain ⟨gs, hgs, hwf, hout⟩ := loop_annexB_deliver_groups env stream
  rw [hout, accessUnitOf_data_flatten, loop_deliver, loop_annexB_reliable_nals henv',
    annexBNals_annexBFrame hwf x (by simp), runAssembler_flatten_closed hgs]
  rfl

/-- A worker that reads three bytes at a time and is stopped before its fourth `running_.load()`
    hands on the IDR access unit; republished byte at a time, it comes back unchanged. -/
theorem loop_annexB_republishes_stopped :
    (loop deliver ⟨fun _ => 1, none⟩ true .annexB
        (((loop deliver ⟨fun _ => 3, some 3⟩ true .annexB
          [0, 0, 1, 0x65, 0x88, 0, 0, 1, 0x41, 0x9a, 0, 0, 1, 9] (Assembler.empty, [])).2.2.map
            (·.data)).flatten ++ kStartCode ++ [9]) (Assembler.empty, [])).2.2 =
      (loop deliver ⟨fun _ => 3, some 3⟩ true .annexB [0, 0, 1, 0x65, 0x88, 0, 0, 1, 0x41, 0x9a, 0, 0, 1, 9]
        (Assembler.empty, [])).2.2 :=
  loop_annexB_republishes ⟨rfl, fun _ => Nat.one_pos⟩ _ _ 9

/-- **The Annex-B worker holds back the last access unit.** Fed the bytes of the access units a
    first Annex-B worker hands on, in any environment, and nothing after them, a second Annex-B
    worker in any reliable environment hands on all of them but the last: the last one's VCL NAL
    waits in `stream_buf` for a start code and a byte that never come. -/
theorem loop_annexB_holds_back_last {env' : Env} (henv' : env'.Reliable) (env : Env)
    (stream : List UInt8) :
    (loop deliver env' true .annexB
        ((loop deliver env true .annexB stream (Assembler.empty, [])).2.2.map (·.data)).flatten
        (Assembler.empty, [])).2.2 =
      (loop deliver env true .annexB stream (Assembler.empty, [])).2.2.dropLast := by
  obtain ⟨gs, hgs, hwf, hout⟩ := loop_annexB_deliver_groups env stream
  rw [hout, accessUnitOf_data_flatten, loop_deliver, loop_annexB_reliable_nals henv',
    annexBNals_annexBFrame_open hwf (by simp), runAssembler_flatten_closed_dropLast hgs,
    List.map_dropLast]

/-- An SPS and an IDR slice then a non-IDR slice, republished with nothing after them. -/
theorem loop_annexB_holds_back_last_two_units :
    (loop deliver ⟨fun _ => 1, none⟩ true .annexB
        ((loop deliver ⟨fun _ => 3, none⟩ true .annexB
          [0, 0, 0, 1, 0x67, 0, 0, 1, 0x65, 0x88, 0, 0, 1, 0x41, 0x9a, 0, 0, 1, 9]
          (Assembler.empty, [])).2.2.map (·.data)).flatten (Assembler.empty, [])).2.2 =
      (loop deliver ⟨fun _ => 3, none⟩ true .annexB
        [0, 0, 0, 1, 0x67, 0, 0, 1, 0x65, 0x88, 0, 0, 1, 0x41, 0x9a, 0, 0, 1, 9]
        (Assembler.empty, [])).2.2.dropLast :=
  loop_annexB_holds_back_last ⟨rfl, fun _ => Nat.one_pos⟩ _ _

/-- **The two framings agree.** NALs that both framings carry (1 to `kMaxNalSize` bytes, free of
    `00 00 01`), sent as AVCC records to one worker and behind `kStartCode` (then `kStartCode`
    and one more byte) to another, each in a reliable environment, leave both workers with the
    same access units handed on and the same pending `access_unit` and `has_idr`. -/
theorem loop_avcc_annexB_agree {p : List (List UInt8)} (hp : ∀ q ∈ p, ValidNal q ∧ ¬ [0, 0, 1] <:+: q)
    {env env' : Env} (henv : env.Reliable) (henv' : env'.Reliable) (x : UInt8) :
    (loop deliver env true .avcc (avccEncode p) (Assembler.empty, [])).2 =
      (loop deliver env' true .annexB (annexBFrame p ++ kStartCode ++ [x]) (Assembler.empty, [])).2 := by
  have hrec : NoRecordAt [] := by decide
  rw [loop_deliver, loop_deliver, loop_avcc_reliable_records henv (fun q hq => (hp q hq).1) hrec
    (List.append_nil _).symm, loop_annexB_reliable_nals henv',
    annexBNals_annexBFrame (fun q hq => ⟨List.ne_nil_of_length_pos (hp q hq).1.1, (hp q hq).2⟩) x
      (by simp)]

/-- An SPS and an IDR slice, AVCC byte at a time and Annex-B in 64 KiB reads. -/
theorem loop_avcc_annexB_agree_sps_idr :
    (loop deliver ⟨fun _ => 1, none⟩ true .avcc (avccEncode [[0x67, 0x42], [0x65, 0x88]])
        (Assembler.empty, [])).2 =
      (loop deliver ⟨fun _ => kReadChunkSize, none⟩ true .annexB
        (annexBFrame [[0x67, 0x42], [0x65, 0x88]] ++ kStartCode ++ [9]) (Assembler.empty, [])).2 :=
  loop_avcc_annexB_agree (by decide) ⟨rfl, fun _ => Nat.one_pos⟩
    ⟨rfl, fun _ => show 0 < kReadChunkSize by decide⟩ 9

end PublishH264
