import PublishH264.Nal

/-!
# Assembler — `emit_access_unit` and the access units it hands on

The lambda `emit_access_unit` of `H264TcpSource::loop` appends the canonical start code and each
NAL to `access_unit`, notes an IDR NAL in `has_idr`, and on a VCL NAL hands the access unit to
`callback_` and starts a new one. Both framings call it once per NAL with
`is_vcl = isVclNal(nal)`. The timestamp of an access unit is a `steady_clock` reading and is not
modelled; `callback_` is taken to be set, as `main` sets it.

The main result, `runAssembler_partitions_at_vcl`, says the NAL sequence is cut after each VCL
NAL: every group closed by a VCL NAL is one delivered access unit, and what follows the last VCL
NAL stays in `access_unit`.

`main`'s callback hands each access unit to `EncodedVideoSource::captureEncodedFrame` and clears
`g_running` when the capture fails; a request that throws also clears `capture_supported_`.
`publishRun_runAssembler` says that, since no access unit is empty, the program stops exactly at
the first capture request that fails.
-/

namespace PublishH264

/-- `H264AccessUnit` without its timestamp. -/
structure H264AccessUnit where
  data : List UInt8
  isKeyframe : Bool
deriving Repr, DecidableEq

/-- The state `emit_access_unit` captures by reference: `access_unit` and `has_idr`. -/
structure Assembler where
  accessUnit : List UInt8
  hasIdr : Bool
deriving Repr, DecidableEq

/-- `access_unit` and `has_idr` as `loop()` declares them. -/
def Assembler.empty : Assembler := ⟨[], false⟩

/-- `kStartCode` of `emit_access_unit`. -/
def kStartCode : List UInt8 := [0, 0, 0, 1]

/-- `emit_access_unit(nal_data, nal_size, is_vcl)`, returning the access unit passed to
    `callback_`, if any. -/
def emitAccessUnit (asm : Assembler) (nal : List UInt8) (isVcl : Bool) :
    Assembler × Option H264AccessUnit :=
  let accessUnit := asm.accessUnit ++ kStartCode ++ nal
  let hasIdr := if isIdrNal nal then true else asm.hasIdr
  if !isVcl then (⟨accessUnit, hasIdr⟩, none)
  else (Assembler.empty, some ⟨accessUnit, hasIdr⟩)

/-- One call of `emit_access_unit` on the worker: the assembler, and every access unit handed to
    `callback_` so far. -/
def deliver (acc : Assembler × List H264AccessUnit) (nal : List UInt8) (isVcl : Bool) :
    Assembler × List H264AccessUnit :=
  let r := emitAccessUnit acc.1 nal isVcl
  (r.1, acc.2 ++ r.2.toList)

/-- The assembler fed NALs in order, each with `is_vcl = isVclNal(nal)`. -/
def runAssembler (acc : Assembler × List H264AccessUnit) (nals : List (List UInt8)) :
    Assembler × List H264AccessUnit :=
  nals.foldl (fun acc nal => deliver acc nal (isVclNal nal)) acc

@[simp] theorem runAssembler_nil (acc : Assembler × List H264AccessUnit) :
    runAssembler acc [] = acc := rfl

@[simp] theorem runAssembler_append (acc : Assembler × List H264AccessUnit)
    (xs ys : List (List UInt8)) :
    runAssembler acc (xs ++ ys) = runAssembler (runAssembler acc xs) ys :=
  List.foldl_append ..

@[simp] theorem runAssembler_cons (acc : Assembler × List H264AccessUnit) (x : List UInt8)
    (xs : List (List UInt8)) :
    runAssembler acc (x :: xs) = runAssembler (deliver acc x (isVclNal x)) xs := rfl

/-- In place of `emit_access_unit`: records the NALs it is called with, in order. Both readers
    are generic in the call, and this instance lists what they pass. -/
def recordNal (nals : List (List UInt8)) (nal : List UInt8) (_isVcl : Bool) : List (List UInt8) :=
  nals ++ [nal]

/-- What `EncodedVideoSource::captureEncodedFrame` reads of its source: whether `handle_` is set,
    and `capture_supported_`. -/
structure EncodedVideoSource where
  hasHandle : Bool
  captureSupported : Bool
deriving Repr, DecidableEq

/-- `EncodedVideoSource::captureEncodedFrame(data, size, timestamp_us, is_keyframe)`: `false`
    without a handle, for an empty buffer, or once capture is unsupported; otherwise it sends the
    FFI request, whose outcome is `requestOk`, and a request that throws stores
    `capture_supported_ = false`. -/
def EncodedVideoSource.captureEncodedFrame (src : EncodedVideoSource) (requestOk : Bool)
    (data : List UInt8) : Bool × EncodedVideoSource :=
  if !src.hasHandle then (false, src)
  else if data.isEmpty then (false, src)
  else if !src.captureSupported then (false, src)
  else if requestOk then (true, src)
  else (false, { src with captureSupported := false })

/-! ## The access units of a NAL sequence -/

/-- Each NAL after the canonical start code, concatenated. -/
def annexBFrame (nals : List (List UInt8)) : List UInt8 := nals.flatMap (kStartCode ++ ·)

@[simp] theorem annexBFrame_nil : annexBFrame [] = [] := rfl

@[simp] theorem annexBFrame_append (xs ys : List (List UInt8)) :
    annexBFrame (xs ++ ys) = annexBFrame xs ++ annexBFrame ys := List.flatMap_append ..

@[simp] theorem annexBFrame_singleton (x : List UInt8) : annexBFrame [x] = kStartCode ++ x := by
  simp [annexBFrame]

theorem annexBFrame_cons (x : List UInt8) (xs : List (List UInt8)) :
    annexBFrame (x :: xs) = kStartCode ++ (x ++ annexBFrame xs) := by
  simp [annexBFrame]

theorem annexBFrame_flatten (gs : List (List (List UInt8))) :
    annexBFrame gs.flatten = (gs.map annexBFrame).flatten := by
  induction gs with
  | nil => rfl
  | cons g gs ih => simp [ih]

/-- The access unit the NALs `g` make. -/
def accessUnitOf (g : List (List UInt8)) : H264AccessUnit := ⟨annexBFrame g, g.any isIdrNal⟩

/-- The bytes of the access units of groups are the groups' NALs behind `kStartCode`. -/
theorem accessUnitOf_data_flatten (gs : List (List (List UInt8))) :
    ((gs.map accessUnitOf).map (·.data)).flatten = annexBFrame gs.flatten := by
  rw [annexBFrame_flatten, List.map_map]
  rfl

/-- `g` ends with its only VCL NAL. -/
def ClosedByVcl (g : List (List UInt8)) : Prop :=
  ∃ pre v, g = pre ++ [v] ∧ isVclNal v = true ∧ ∀ m ∈ pre, isVclNal m = false

/-- The assembler state after the NALs `nals`: they are the groups handed on, each closed by its
    one VCL NAL, then a tail of non-VCL NALs that `access_unit` and `has_idr` describe. -/
def AssembledFrom (nals : List (List UInt8)) (acc : Assembler × List H264AccessUnit) : Prop :=
  ∃ (gs : List (List (List UInt8))) (tail : List (List UInt8)),
    nals = gs.flatten ++ tail ∧ (∀ g ∈ gs, ClosedByVcl g) ∧
    (∀ m ∈ tail, isVclNal m = false) ∧ acc.2 = gs.map accessUnitOf ∧
    acc.1 = ⟨annexBFrame tail, tail.any isIdrNal⟩

theorem assembledFrom_nil : AssembledFrom [] (Assembler.empty, []) :=
  ⟨[], [], rfl, by simp, by simp, rfl, rfl⟩

/-- One `emit_access_unit` call keeps the decomposition: a VCL NAL closes the tail into a group. -/
theorem assembledFrom_deliver {nals : List (List UInt8)} {acc : Assembler × List H264AccessUnit}
    (h : AssembledFrom nals acc) (m : List UInt8) :
    AssembledFrom (nals ++ [m]) (deliver acc m (isVclNal m)) := by
  obtain ⟨gs, tail, rfl, hgs, htail, hout, hasm⟩ := h
  obtain ⟨asm, out⟩ := acc
  simp only at hout hasm
  subst hout hasm
  cases hv : isVclNal m
  · refine ⟨gs, tail ++ [m], by simp, hgs, ?_, ?_, ?_⟩
    · simpa [or_imp, forall_and] using ⟨htail, hv⟩
    · simp [deliver, emitAccessUnit, hv]
    · simp only [deliver, emitAccessUnit, hv, Bool.not_false, ↓reduceIte, annexBFrame_append,
        annexBFrame_singleton, List.append_assoc, List.any_append, List.any_cons, List.any_nil,
        Bool.or_false, Assembler.mk.injEq, true_and]
      cases isIdrNal m <;> simp
  · refine ⟨gs ++ [tail ++ [m]], [], by simp, ?_, by simp, ?_, ?_⟩
    · simpa [or_imp, forall_and] using ⟨hgs, tail, m, rfl, hv, htail⟩
    · simp only [deliver, emitAccessUnit, hv, Bool.not_true, ↓reduceIte, Option.toList_some,
        List.map_append, List.map_singleton, accessUnitOf, annexBFrame_append,
        annexBFrame_singleton, List.append_assoc, List.any_append, List.any_cons, List.any_nil,
        Bool.or_false]
      cases isIdrNal m <;> simp
    · rfl

theorem assembledFrom_runAssembler (nals : List (List UInt8)) :
    AssembledFrom nals (runAssembler (Assembler.empty, []) nals) := by
  induction nals using List.reverseRecOn with
  | nil => exact assembledFrom_nil
  | append_singleton nals m ih => simpa using assembledFrom_deliver ih m

theorem deliver_length (acc : Assembler × List H264AccessUnit) (m : List UInt8) (isVcl : Bool) :
    (deliver acc m isVcl).2.length = acc.2.length + if isVcl then 1 else 0 := by
  cases isVcl <;> simp [deliver, emitAccessUnit]

/-- One access unit per VCL NAL. -/
theorem runAssembler_length (nals : List (List UInt8)) :
    (runAssembler (Assembler.empty, []) nals).2.length = nals.countP isVclNal := by
  induction nals using List.reverseRecOn with
  | nil => rfl
  | append_singleton nals m ih =>
    simp only [runAssembler_append, runAssembler_cons, runAssembler_nil, deliver_length, ih,
      List.countP_append, List.countP_singleton]

theorem kStartCode_prefix_annexBFrame {g : List (List UInt8)} (hg : g ≠ []) :
    kStartCode <+: annexBFrame g := by
  obtain ⟨x, xs, rfl⟩ := List.exists_cons_of_ne_nil hg
  exact ⟨x ++ annexBFrame xs, by simp [annexBFrame]⟩

/-- Every access unit the assembler hands on begins with the canonical start code. -/
theorem runAssembler_starts_with_kStartCode (nals : List (List UInt8)) :
    ∀ au ∈ (runAssembler (Assembler.empty, []) nals).2, kStartCode <+: au.data := by
  obtain ⟨gs, tail, -, hgs, -, hout, -⟩ := assembledFrom_runAssembler nals
  rw [hout]
  intro au hau
  obtain ⟨g, hg, rfl⟩ := List.mem_map.mp hau
  obtain ⟨pre, v, rfl, -⟩ := hgs g hg
  exact kStartCode_prefix_annexBFrame (by simp)

theorem ne_nil_of_starts_with_kStartCode {data : List UInt8} (h : kStartCode <+: data) : data ≠ [] := by
  obtain ⟨t, rfl⟩ := h
  simp [kStartCode]

/-- On a nonempty buffer the capture succeeds exactly with a handle, capture supported and the
    request answered. -/
theorem captureEncodedFrame_of_ne_nil {data : List UInt8} (hd : data ≠ []) (src : EncodedVideoSource)
    (requestOk : Bool) :
    (src.captureEncodedFrame requestOk data).1 = (src.hasHandle && src.captureSupported && requestOk) := by
  obtain ⟨hasHandle, captureSupported⟩ := src
  cases hasHandle <;> cases captureSupported <;> cases requestOk <;>
    simp [EncodedVideoSource.captureEncodedFrame, hd]

/-- **Access-unit assembly partitions the NAL stream at VCL NALs.** From an empty `access_unit`,
    the NALs are the delivered groups, each closed by its one VCL NAL and framed with start codes,
    then a non-VCL tail left in `access_unit`; there is one access unit per VCL NAL; each begins
    with `00 00 00 01`, so `captureEncodedFrame` never refuses it as empty; and the delivered
    buffers followed by `access_unit` are the framed NAL sequence, nothing lost or repeated. -/
theorem runAssembler_partitions_at_vcl (nals : List (List UInt8)) :
    AssembledFrom nals (runAssembler (Assembler.empty, []) nals) ∧
    (runAssembler (Assembler.empty, []) nals).2.length = nals.countP isVclNal ∧
    (∀ au ∈ (runAssembler (Assembler.empty, []) nals).2,
      kStartCode <+: au.data ∧ ∀ (src : EncodedVideoSource) requestOk,
        (src.captureEncodedFrame requestOk au.data).1 =
          (src.hasHandle && src.captureSupported && requestOk)) ∧
    ((runAssembler (Assembler.empty, []) nals).2.map (·.data)).flatten ++
      (runAssembler (Assembler.empty, []) nals).1.accessUnit = annexBFrame nals := by
  obtain ⟨gs, tail, hnals, -, -, hout, hasm⟩ := assembledFrom_runAssembler nals
  refine ⟨assembledFrom_runAssembler nals, runAssembler_length nals, fun au hau => ?_, ?_⟩
  · have hpre := runAssembler_starts_with_kStartCode nals au hau
    exact ⟨hpre, captureEncodedFrame_of_ne_nil (ne_nil_of_starts_with_kStartCode hpre)⟩
  · rw [hout, hasm, hnals, List.map_map]
    simp [Function.comp_def, accessUnitOf, annexBFrame_flatten]

/-! ## Groups closed by a VCL NAL -/

theorem deliver_nonVcl (asm : Assembler) (out : List H264AccessUnit) (m : List UInt8) :
    deliver (asm, out) m false = (⟨asm.accessUnit ++ kStartCode ++ m, asm.hasIdr || isIdrNal m⟩, out) := by
  cases h : isIdrNal m <;> simp [deliver, emitAccessUnit, h]

theorem deliver_vcl (asm : Assembler) (out : List H264AccessUnit) (m : List UInt8) :
    deliver (asm, out) m true =
      (Assembler.empty, out ++ [⟨asm.accessUnit ++ kStartCode ++ m, asm.hasIdr || isIdrNal m⟩]) := by
  cases h : isIdrNal m <;> simp [deliver, emitAccessUnit, h]

/-- Non-VCL NALs only grow `access_unit` and `has_idr`. -/
theorem runAssembler_nonVcl {pre : List (List UInt8)} (hpre : ∀ m ∈ pre, isVclNal m = false)
    (asm : Assembler) (out : List H264AccessUnit) :
    runAssembler (asm, out) pre =
      (⟨asm.accessUnit ++ annexBFrame pre, asm.hasIdr || pre.any isIdrNal⟩, out) := by
  induction pre generalizing asm with
  | nil => simp
  | cons m pre ih =>
    rw [List.forall_mem_cons] at hpre
    rw [runAssembler_cons, hpre.1, deliver_nonVcl, ih hpre.2]
    simp [annexBFrame_cons, Bool.or_assoc]

/-- From an empty `access_unit`, a group closed by its VCL NAL is handed on as its access unit. -/
theorem runAssembler_closedByVcl {g : List (List UInt8)} (hg : ClosedByVcl g)
    (out : List H264AccessUnit) :
    runAssembler (Assembler.empty, out) g = (Assembler.empty, out ++ [accessUnitOf g]) := by
  obtain ⟨pre, v, rfl, hv, hpre⟩ := hg
  rw [runAssembler_append, runAssembler_nonVcl hpre, runAssembler_cons, hv, deliver_vcl,
    runAssembler_nil]
  simp [accessUnitOf, Assembler.empty]

/-- Groups closed by VCL NALs are handed on as their access units, one each, with nothing left in
    `access_unit`. -/
theorem runAssembler_flatten_closed {gs : List (List (List UInt8))} (hgs : ∀ g ∈ gs, ClosedByVcl g)
    (out : List H264AccessUnit) :
    runAssembler (Assembler.empty, out) gs.flatten = (Assembler.empty, out ++ gs.map accessUnitOf) := by
  induction gs generalizing out with
  | nil => simp
  | cons g gs ih =>
    rw [List.forall_mem_cons] at hgs
    rw [List.flatten_cons, runAssembler_append, runAssembler_closedByVcl hgs.1, ih hgs.2]
    simp

/-- Without the last NAL of the last group, that group stays in `access_unit`. -/
theorem runAssembler_flatten_closed_dropLast {gs : List (List (List UInt8))}
    (hgs : ∀ g ∈ gs, ClosedByVcl g) :
    (runAssembler (Assembler.empty, []) gs.flatten.dropLast).2 = gs.dropLast.map accessUnitOf := by
  induction gs using List.reverseRecOn with
  | nil => rfl
  | append_singleton gs g _ =>
    obtain ⟨pre, v, rfl, -, hpre⟩ := hgs _ (List.mem_append_right _ (List.mem_singleton_self _))
    have hclosed : ∀ g ∈ gs, ClosedByVcl g := fun g hg => hgs g (List.mem_append_left _ hg)
    rw [List.flatten_concat, ← List.append_assoc, List.dropLast_concat, runAssembler_append,
      runAssembler_flatten_closed hclosed, runAssembler_nonVcl hpre, List.dropLast_concat]
    simp

/-- The assembler only appends to the access units handed on. -/
theorem runAssembler_out_grows (acc : Assembler × List H264AccessUnit) (nals : List (List UInt8)) :
    acc.2 <+: (runAssembler acc nals).2 := by
  induction nals generalizing acc with
  | nil => exact List.prefix_refl _
  | cons m nals ih =>
    rw [runAssembler_cons]
    exact (List.prefix_append _ _).trans (ih (deliver acc m (isVclNal m)))

/-- More NALs, more access units: those of a prefix begin those of the whole. -/
theorem runAssembler_mono {xs ys : List (List UInt8)} (h : xs <+: ys)
    (acc : Assembler × List H264AccessUnit) : (runAssembler acc xs).2 <+: (runAssembler acc ys).2 := by
  obtain ⟨zs, rfl⟩ := h
  rw [runAssembler_append]
  exact runAssembler_out_grows _ zs

/- An SPS then an IDR slice: one keyframe access unit holding both. -/
example : runAssembler (Assembler.empty, []) [[0x67, 0x42], [0x65, 0x88]] =
    (Assembler.empty, [⟨[0, 0, 0, 1, 0x67, 0x42, 0, 0, 0, 1, 0x65, 0x88], true⟩]) := by decide

/-! ## Publishing the access units -/

/-- The callback `main` hands to `H264TcpSource`, with `g_running`: capture the access unit;
    `if (!ok || !encodedSource->captureSupported()) g_running.store(false)`. -/
def onAccessUnit (s : EncodedVideoSource × Bool) (requestOk : Bool) (au : H264AccessUnit) :
    EncodedVideoSource × Bool :=
  let r := s.1.captureEncodedFrame requestOk au.data
  (r.2, if !r.1 || !r.2.captureSupported then false else s.2)

/-- The callback on access units in turn, each with the outcome of its FFI request. -/
def publishRun (s : EncodedVideoSource × Bool) (aus : List (Bool × H264AccessUnit)) :
    EncodedVideoSource × Bool :=
  aus.foldl (fun s p => onAccessUnit s p.1 p.2) s

/-- From a source with a handle, on nonempty access units, `g_running` and `capture_supported_`
    stay set exactly while every request succeeds. -/
theorem publishRun_nonempty (b : Bool) (aus : List (Bool × H264AccessUnit))
    (hne : ∀ p ∈ aus, p.2.data ≠ []) :
    publishRun (⟨true, b⟩, b) aus = (⟨true, b && aus.all (·.1)⟩, b && aus.all (·.1)) := by
  induction aus generalizing b with
  | nil => simp [publishRun]
  | cons p aus ih =>
    have hp := hne p (List.mem_cons_self p aus)
    have step : onAccessUnit (⟨true, b⟩, b) p.1 p.2 = (⟨true, b && p.1⟩, b && p.1) := by
      cases b <;> cases p.1 <;>
        simp [onAccessUnit, EncodedVideoSource.captureEncodedFrame, hp]
    simp only [publishRun, List.foldl_cons] at ih ⊢
    rw [step, ih _ (fun q hq => hne q (List.mem_cons_of_mem p hq)), List.all_cons, Bool.and_assoc]

/-- **The publisher stops only on a failed capture request.** Feeding the access units the
    assembler hands on for any NAL sequence to `main`'s callback, from a source with a handle and
    capture supported, with any request outcomes: no capture is refused for an empty buffer, and
    `g_running` stays set exactly while every request has succeeded. -/
theorem publishRun_runAssembler (nals : List (List UInt8)) (oks : List Bool) :
    (publishRun (⟨true, true⟩, true) (oks.zip (runAssembler (Assembler.empty, []) nals).2)).2 =
      (oks.zip (runAssembler (Assembler.empty, []) nals).2).all (·.1) := by
  rw [publishRun_nonempty true _ fun p hp =>
    ne_nil_of_starts_with_kStartCode (runAssembler_starts_with_kStartCode nals p.2 (List.of_mem_zip hp).2)]
  simp

end PublishH264
