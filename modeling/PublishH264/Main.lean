import PublishH264.Args
import PublishH264.Lifecycle

/-!
# Main — what `main` hands to the SDK

`main` parses its arguments, connects a `Room`, publishes an encoded H.264 track, starts an
`H264TcpSource` whose callback pushes each access unit into the track's `EncodedVideoSource`
(`publishRun` in `Assembler`), waits until `g_running` is cleared, and stops the source. The room,
the track and the SDK are outside the model: whether `Connect` succeeded and whether
`publishTrack` returned are arguments. `main` is the record of what it hands to them: the
`RoomOptions` given to `Connect`, the `video_encoding` given to `publishTrack`, and the calls it
makes on its `H264TcpSource`.

* `main_credentials_check_unreachable`: `parseArgs` already returns `false` without a URL or a
  token, so `main` prints the usage there and never reaches its own check.
* `main_negative_bitrate_wraps`: a negative `--max-bitrate` next to a positive `--max-framerate`
  reaches `publishTrack` as `max_bitrate = b + 2^64`.
* `main_source_never_terminates`: `main` starts its source once, so no interleaving of its calls
  with the worker's reaches the `std::terminate` of a restart.
-/

namespace PublishH264

/-! ## 1. What `main` hands on -/

/-- `livekit::E2EEOptions` as `main` fills it: `EncryptionType::GCM`, with the shared key when one
    was given. -/
structure E2EEOptions where
  sharedKey : Option (List UInt8)
deriving Repr, DecidableEq

/-- `RoomOptions` as `main` fills it. -/
structure RoomOptions where
  autoSubscribe : Bool
  dynacast : Bool
  encryption : Option E2EEOptions
deriving Repr, DecidableEq

/-- `VideoEncodingOptions`: `max_bitrate` is a `std::uint64_t`, `max_framerate` a `double` that
    holds the `int` it was made from exactly. -/
structure VideoEncodingOptions where
  maxBitrate : Nat
  maxFramerate : Int
deriving Repr, DecidableEq

/-- `toBytes`: the string's `char`s as bytes. -/
def toBytes (s : List Char) : List UInt8 := s.map Char.toUInt8

/-- The `RoomOptions` block of `main`. -/
def roomOptions (enableE2ee : Bool) (e2eeKey : List Char) : RoomOptions :=
  { autoSubscribe := true
    dynacast := false
    encryption :=
      if enableE2ee then some ⟨if !e2eeKey.isEmpty then some (toBytes e2eeKey) else none⟩ else none }

/-- The encoding constraints of `main`. `static_cast<std::uint64_t>(h264.max_bitrate)` is the
    value modulo `2^64`. -/
def videoEncoding (h264 : H264TcpArgs) : Option VideoEncodingOptions :=
  if h264.maxBitrate > 0 || h264.maxFramerate > 0 then
    some ⟨(h264.maxBitrate % 2 ^ 64).toNat, h264.maxFramerate⟩
  else none

/-- The resolution `EncodedVideoSource(width, height)` sends in its `new_video_source` request:
    `static_cast<std::uint32_t>` of each, the value modulo `2^32`. -/
def encodedResolution (width height : Int) : Nat × Nat :=
  ((width % 2 ^ 32).toNat, (height % 2 ^ 32).toNat)

/-- How `main` returns. -/
inductive MainExit where
  /-- `parseArgs` returned `false`: `printUsage`, `return 1` -/
  | usage
  /-- the URL or the token is empty: `return 1` -/
  | noCredentials
  /-- `room->Connect` returned `false`: `livekit::shutdown()`, `return 1` -/
  | connectFailed
  /-- `publishTrack` threw: `livekit::shutdown()`, `return 1` -/
  | publishFailed
  /-- `g_running` was cleared: stop, unpublish, `livekit::shutdown()`, `return 0` -/
  | finished
deriving Repr, DecidableEq

/-- What `main` hands to the SDK, and how it returns. -/
structure MainRun where
  exit : MainExit
  /-- the options `room->Connect` was called with -/
  connectOptions : Option RoomOptions
  /-- the resolution the `EncodedVideoSource` was created with -/
  sourceResolution : Option (Nat × Nat)
  /-- the `video_encoding` `publishTrack` was called with -/
  publishEncoding : Option (Option VideoEncodingOptions)
  /-- the host, port and framing the `H264TcpSource` was created with -/
  tcpSource : Option (List Char × UInt16 × H264Framing)
  /-- the calls on the `H264TcpSource`, the destructor's `stop()` last -/
  sourceCalls : List Call
deriving Repr

/-- `main(argc, argv)` with the environment `getenv`; `connected` is what `room->Connect`
    returned, `published` whether `publishTrack` returned without throwing. -/
def main (getenv : List Char → Option (List Char)) (argv : List String)
    (connected published : Bool) : MainRun :=
  let r := parseArgs getenv argv [] [] []
  if !r.1 then ⟨.usage, none, none, none, none, []⟩
  else if r.2.url.isEmpty || r.2.token.isEmpty then ⟨.noCredentials, none, none, none, none, []⟩
  else
    let options := roomOptions r.2.enableE2ee r.2.e2eeKey
    if !connected then ⟨.connectFailed, some options, none, none, none, []⟩
    else
      let resolution := encodedResolution r.2.h264.width r.2.h264.height
      if !published then
        ⟨.publishFailed, some options, some resolution, some (videoEncoding r.2.h264), none, []⟩
      else
        ⟨.finished, some options, some resolution, some (videoEncoding r.2.h264),
          some (r.2.h264.host, r.2.h264.port, r.2.h264.framing), [.start, .stop, .stop]⟩

/-! ## 2. The credentials -/

/-- `parseArgs` returns `true` only with a URL and a token. -/
theorem parseArgs_credentials {getenv : List Char → Option (List Char)} {argv : List String}
    {url token e2eeKey : List Char} (h : (parseArgs getenv argv url token e2eeKey).1 = true) :
    (parseArgs getenv argv url token e2eeKey).2.url ≠ [] ∧
      (parseArgs getenv argv url token e2eeKey).2.token ≠ [] := by
  unfold parseArgs at h ⊢
  split at h
  · cases h
  · simpa [List.isEmpty_iff, not_or] using h

/-- **`main`'s own credentials check is never reached.** With no URL or no token after the
    environment fallback, `parseArgs` has already returned `false`, so `main` prints the usage
    and returns `1`; the message for missing credentials is never printed. -/
theorem main_credentials_check_unreachable (getenv : List Char → Option (List Char))
    (argv : List String) (connected published : Bool) :
    (main getenv argv connected published).exit ≠ .noCredentials ∧
    ((parseArgs getenv argv [] [] []).2.url = [] ∨ (parseArgs getenv argv [] [] []).2.token = [] →
      (main getenv argv connected published).exit = .usage) := by
  by_cases h : (parseArgs getenv argv [] [] []).1 = true
  · obtain ⟨hu, ht⟩ := parseArgs_credentials h
    refine ⟨?_, fun hm => (hm.elim hu ht).elim⟩
    simp only [main]
    split_ifs <;> simp_all [List.isEmpty_iff]
  · simp [main, h]

/-! ## 3. The encoding constraints -/

/-- `publishTrack` gets the encoding constraints of the parsed arguments. -/
theorem main_publishEncoding {getenv : List Char → Option (List Char)} {argv : List String}
    {connected published : Bool} {enc : Option VideoEncodingOptions}
    (h : (main getenv argv connected published).publishEncoding = some enc) :
    enc = videoEncoding (parseArgs getenv argv [] [] []).2.h264 := by
  simp only [main] at h
  split_ifs at h <;> simp_all

/-- **A negative bitrate becomes a huge one.** When the parsed `--max-bitrate` is negative and
    `--max-framerate` positive, the constraints reach `publishTrack` with
    `max_bitrate = b + 2^64`, at least `2^64 - 2^31` bits per second: `static_cast` wraps it,
    and nothing rejects it. -/
theorem main_negative_bitrate_wraps {getenv : List Char → Option (List Char)} {argv : List String}
    {connected published : Bool}
    (hb : (parseArgs getenv argv [] [] []).2.h264.maxBitrate < 0)
    (hf : 0 < (parseArgs getenv argv [] [] []).2.h264.maxFramerate)
    {enc : Option VideoEncodingOptions}
    (h : (main getenv argv connected published).publishEncoding = some enc) :
    enc = some ⟨((parseArgs getenv argv [] [] []).2.h264.maxBitrate + 2 ^ 64).toNat,
      (parseArgs getenv argv [] [] []).2.h264.maxFramerate⟩ ∧
    2 ^ 64 - 2 ^ 31 ≤ ((parseArgs getenv argv [] [] []).2.h264.maxBitrate + 2 ^ 64).toNat := by
  have hint := (parseArgs_intsInRange getenv argv [] [] []).2.2.1
  rw [main_publishEncoding h]
  generalize (parseArgs getenv argv [] [] []).2.h264 = h264 at hb hf hint ⊢
  unfold IsInt at hint
  refine ⟨?_, by omega⟩
  rw [videoEncoding, if_pos (by simp [hf])]
  congr
  omega

/-- `--max-bitrate -1 --max-framerate 30` reaches `publishTrack` as `max_bitrate = 2^64 - 1`. -/
theorem main_bitrate_minus_one :
    some (some ⟨2 ^ 64 - 1, 30⟩) = (main (fun _ => none) ["publish_h264", "--url", "wss://h",
      "--token", "t", "--max-bitrate", "-1", "--max-framerate", "30"] true true).publishEncoding ∧
    (some ⟨2 ^ 64 - 1, 30⟩ : Option VideoEncodingOptions) = some ⟨(-1 + 2 ^ 64 : Int).toNat, 30⟩ :=
  ⟨by decide, (@main_negative_bitrate_wraps (fun _ => none) ["publish_h264", "--url", "wss://h",
      "--token", "t", "--max-bitrate", "-1", "--max-framerate", "30"] true true (by decide) (by decide)
      _ (by decide)).1⟩

/-! ## 4. The source's lifecycle -/

/-- A call the owner makes: `start()` or `stop()`; the others are the worker's, and the return of
    `stop()`'s join. -/
def Call.isOwner : Call → Bool
  | .start | .stop => true
  | _ => false

/-- `main` makes no call on the source, or `start()`, `stop()` and the destructor's `stop()`. -/
theorem main_sourceCalls (getenv : List Char → Option (List Char)) (argv : List String)
    (connected published : Bool) :
    (main getenv argv connected published).sourceCalls = [] ∨
      (main getenv argv connected published).sourceCalls = [.start, .stop, .stop] := by
  simp only [main]
  split_ifs <;> simp

/-- **`main` never reaches the `std::terminate` of a restart.** Whichever way `main` returns, every
    interleaving of its calls on the `H264TcpSource` (including the destructor's `stop()`) with
    the worker's exit runs without terminating: `main` calls `start()` at most once. -/
theorem main_source_never_terminates (getenv : List Char → Option (List Char)) (argv : List String)
    (connected published : Bool) {cs : List Call}
    (hcs : cs.filter Call.isOwner = (main getenv argv connected published).sourceCalls) :
    Lifecycle.init.run cs ≠ some .terminate := by
  have hcount : cs.count .start ≤ 1 := by
    rw [← List.count_filter (show Call.isOwner .start = true from rfl), hcs]
    rcases main_sourceCalls getenv argv connected published with h | h <;> rw [h] <;> decide
  exact Lifecycle.run_ne_terminate_of_count_start rfl hcount

/-- The worker exits on its own, then `main` stops the source, waits for the join, and destroys
    it. -/
theorem main_source_stops_after_worker_exit :
    Lifecycle.init.run [.start, .workerStore, .workerReturn, .stop, .joinReturn, .stop] ≠
      some .terminate :=
  @main_source_never_terminates (fun _ => none)
    ["publish_h264", "--url", "wss://h", "--token", "t"] true true _ (by decide)

end PublishH264
