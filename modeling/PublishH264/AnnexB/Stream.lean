import PublishH264.AnnexB.Step

/-!
# AnnexB.Stream — what the Annex-B reader makes of a whole stream

Results about a fresh worker fed a byte stream in any `recv` chunking. A `NalFraming` names the
NALs and start codes of one way of framing NALs, with the facts the scan needs to read them back;
`NalFraming.scanLoop_framed` is the one induction over framed NALs, for every framing and either
ending of the stream.

* `annexB_decodes_encoding`: NALs framed with 3- or 4-byte start codes after a preamble are passed
  to `emit_access_unit` exactly, in order; the last one only once a further start code and a
  byte have arrived.
* `annexBNals_annexBFrame`: behind the `kStartCode` that `emit_access_unit` writes, nonempty NALs
  free of `00 00 01` read back exactly, trailing `00` bytes included.
* `annexBRun_streamBuf_from_last_startCode`: after every `recv`, `stream_buf` is the received
  bytes from the last start code the scan has found (all of them if it has found none), and no
  complete pair of start codes is left in it.
* `annexBNals_framed`: conversely, whatever bytes arrive, the NALs passed are the nonempty pieces
  between consecutive start codes of the chain the search goes through, none of which holds
  `00 00 01`.

The reader sets no bound on `stream_buf` or on a NAL; that is `annexB_buffers_and_passes_past_kMaxNalSize`
in `Worker`.
-/

namespace PublishH264

/-! ## 1. Start codes in framed bytes -/

/-- `00 00 01` or `00 00 00 01`. -/
def IsStartCode (s : List UInt8) : Prop := s = [0, 0, 1] ∨ s = [0, 0, 0, 1]

/-- A NAL the scan can delimit: nonempty, without `00 00 01`, not ending in `00`. -/
def Delimitable (nal : List UInt8) : Prop :=
  nal ≠ [] ∧ ¬ [0, 0, 1] <:+: nal ∧ nal.getLast? ≠ some 0

instance : DecidablePred IsStartCode := fun _ => inferInstanceAs (Decidable (_ ∨ _))

instance : DecidablePred Delimitable := fun _ => inferInstanceAs (Decidable (_ ∧ _))

theorem Delimitable.tail {a : UInt8} {m : List UInt8} (h : Delimitable (a :: m)) (hm : m ≠ []) :
    Delimitable m := by
  obtain ⟨b, m', rfl⟩ := List.exists_cons_of_ne_nil hm
  exact ⟨hm, fun hi => h.2.1 (hi.trans (List.infix_cons (List.infix_refl _))),
    by simpa using h.2.2⟩

theorem IsStartCode.infix_001 {s : List UInt8} (hs : IsStartCode s) : [0, 0, 1] <:+: s := by
  rcases hs with rfl | rfl
  · exact List.infix_refl _
  · exact ⟨[0], [], rfl⟩

/-- A start code the pattern finds is the next three or four bytes. -/
theorem isStartCode_take_of_startCodeHere {l : List UInt8} {k : Nat}
    (h : startCodeHere l = some k) : IsStartCode (l.take k) := by
  rcases startCodeHere_eq_some h with ⟨rfl, y, t, rfl⟩ | ⟨rfl, y, t, rfl⟩
  · exact .inl rfl
  · exact .inr rfl

/-- Every start code contains `00 00 01`. -/
theorem infix_001_of_startCodeHere {l : List UInt8} {k : Nat} (h : startCodeHere l = some k) :
    [0, 0, 1] <:+: l :=
  (isStartCode_take_of_startCodeHere h).infix_001.trans (List.take_prefix k l).isInfix

theorem startCodeHere_startCode {s : List UInt8} (hs : IsStartCode s) (y : UInt8)
    (t : List UInt8) : startCodeHere (s ++ y :: t) = some s.length := by
  rcases hs with rfl | rfl <;> rfl

/-- A start code that begins at the head of bytes without `00 00 01` covers them: they are fewer
    than the start code's bytes, and all `00`. -/
theorem startCodeHere_append_zeros {m X : List UInt8} (hm : ¬ [0, 0, 1] <:+: m) {k : Nat}
    (h : startCodeHere (m ++ X) = some k) : m.length < k ∧ ∀ b ∈ m, b = 0 := by
  have hsc := isStartCode_take_of_startCodeHere h
  have hlt : m.length < k := Nat.lt_of_not_le fun hle => hm (hsc.infix_001.trans (by
    rw [List.take_append_of_le_length hle]; exact (List.take_prefix k m).isInfix))
  have hm' : m = ((m ++ X).take k).take m.length := by
    rw [List.take_take, min_eq_left hlt.le, List.take_left]
  have hk : ((m ++ X).take k).length = k := by
    have := (startCodeHere_size h).2
    simp only [List.length_take, List.length_append] at this ⊢
    omega
  refine ⟨hlt, fun b hb => ?_⟩
  rw [hm'] at hb
  generalize (m ++ X).take k = s at hsc hk hb
  subst hk
  rcases hsc with rfl | rfl
  · exact (by decide : ∀ j < 3, ∀ b ∈ ([0, 0, 1] : List UInt8).take j, b = 0) _ hlt b hb
  · exact (by decide : ∀ j < 4, ∀ b ∈ ([0, 0, 0, 1] : List UInt8).take j, b = 0) _ hlt b hb

/-- No start code begins inside a delimitable NAL: it would cover the NAL's last byte, which is
    not `00`. -/
theorem startCodeHere_delimitable {m : List UInt8} (hm : Delimitable m) (X : List UInt8) :
    startCodeHere (m ++ X) = none := by
  cases h : startCodeHere (m ++ X) with
  | none => rfl
  | some k =>
    have hz := (startCodeHere_append_zeros hm.2.1 h).2 _ (List.getLast_mem hm.1)
    exact absurd (by rw [List.getLast?_eq_getLast m hm.1, hz]) hm.2.2

/-- A start code that begins in a nonempty preamble free of `00 00 01` ends where the start code
    after the preamble does. -/
theorem startCodeHere_preamble {g s : List UInt8} (hg : ¬ [0, 0, 1] <:+: g) (hne : g ≠ [])
    (hs : IsStartCode s) (rest : List UInt8) {k : Nat}
    (h : startCodeHere (g ++ s ++ rest) = some k) : k = g.length + s.length := by
  rw [List.append_assoc] at h
  obtain ⟨hlt, hz⟩ := startCodeHere_append_zeros hg h
  obtain ⟨j, rfl⟩ : ∃ j, g = List.replicate j 0 := ⟨g.length, List.eq_replicate_iff.mpr ⟨rfl, hz⟩⟩
  have hk := (startCodeHere_size h).1
  have hj : j ≠ 0 := by simpa using hne
  simp only [List.length_replicate] at hlt
  obtain rfl | rfl | rfl : j = 1 ∨ j = 2 ∨ j = 3 := by omega
  all_goals
    rcases hs with rfl | rfl <;>
      rcases startCodeHere_eq_some h with ⟨rfl, y, t, he⟩ | ⟨rfl, y, t, he⟩ <;>
      simp [List.replicate] at he ⊢

/-- No start code begins inside a nonempty NAL free of `00 00 01` that `kStartCode` follows. -/
theorem startCodeHere_before_kStartCode {m : List UInt8} (hne : m ≠ []) (hm : ¬ [0, 0, 1] <:+: m)
    (rest : List UInt8) : startCodeHere (m ++ (kStartCode ++ rest)) = none := by
  cases h : startCodeHere (m ++ (kStartCode ++ rest)) with
  | none => rfl
  | some k =>
    have hk := startCodeHere_preamble hm hne (.inr rfl) rest (by rwa [List.append_assoc])
    have := (startCodeHere_size h).1
    have := List.length_pos.mpr hne
    simp only [kStartCode, List.length_cons, List.length_nil] at hk
    omega

theorem firstStartCode_of_no_001 {l : List UInt8} (hl : ¬ [0, 0, 1] <:+: l) :
    firstStartCode l = none := by
  cases h : firstStartCode l with
  | none => rfl
  | some sc =>
    exact absurd ((infix_001_of_startCodeHere (firstStartCode_found h)).trans
      (List.drop_suffix _ _).isInfix) hl

/-- After a delimitable NAL the scan finds the start code that follows it, where it begins. -/
theorem firstStartCode_delimitable {m s : List UInt8} (hm : Delimitable m) (hs : IsStartCode s)
    (y : UInt8) (t : List UInt8) :
    firstStartCode (m ++ (s ++ y :: t)) = some ⟨m.length, s.length⟩ := by
  induction m with
  | nil => exact absurd rfl hm.1
  | cons a m ih =>
    rw [List.cons_append, firstStartCode_cons, ← List.cons_append, startCodeHere_delimitable hm]
    by_cases hm' : m = []
    · subst hm'
      rw [List.nil_append, firstStartCode_of_startCodeHere (startCodeHere_startCode hs y t)]
      rfl
    · rw [ih (hm.tail hm')]
      rfl

/-- After a NAL free of `00 00 01`, the scan finds the `kStartCode` that follows it. -/
theorem firstStartCode_kStartCode {m : List UInt8} (hm : ¬ [0, 0, 1] <:+: m)
    (y : UInt8) (t : List UInt8) :
    firstStartCode (m ++ (kStartCode ++ y :: t)) = some ⟨m.length, 4⟩ := by
  refine firstStartCode_eq_some_iff.mpr ⟨by rw [List.drop_left]; rfl, fun j hj => ?_⟩
  rw [List.drop_append_of_le_length hj.le]
  exact startCodeHere_before_kStartCode (by simpa using hj)
    (fun h => hm (h.trans (List.drop_suffix j m).isInfix)) _

/-- The first start code after a preamble free of `00 00 01` ends where the first framed start
    code does. -/
theorem firstStartCode_preamble {g s : List UInt8} (hg : ¬ [0, 0, 1] <:+: g) (hs : IsStartCode s)
    (y : UInt8) (t : List UInt8) :
    ∃ o k, firstStartCode (g ++ (s ++ y :: t)) = some ⟨o, k⟩ ∧ o + k = g.length + s.length := by
  induction g with
  | nil =>
    exact ⟨0, s.length, firstStartCode_of_startCodeHere (startCodeHere_startCode hs y t), by simp⟩
  | cons a g ih =>
    rw [List.cons_append, firstStartCode_cons]
    split
    · rename_i k hk
      refine ⟨0, k, rfl, ?_⟩
      have := startCodeHere_preamble hg (List.cons_ne_nil _ _) hs (y :: t)
        (by simpa only [List.append_assoc, List.cons_append] using hk)
      omega
    · obtain ⟨o, k, h, hok⟩ := ih (fun hi => hg (hi.trans (List.infix_cons (List.infix_refl _))))
      exact ⟨o + 1, k, by rw [h]; rfl, by simp; omega⟩

theorem findStartCode_delimitable {pre n s : List UInt8} (hn : Delimitable n) (hs : IsStartCode s)
    (y : UInt8) (t : List UInt8) :
    findStartCode (pre ++ (n ++ (s ++ y :: t))) pre.length =
      some ⟨pre.length + n.length, s.length⟩ := by
  rw [findStartCode_eq_firstStartCode, List.drop_left, firstStartCode_delimitable hn hs]
  simp [StartCode.shift, Nat.add_comm]

theorem findStartCode_kStartCode {pre m : List UInt8} (hm : ¬ [0, 0, 1] <:+: m)
    (y : UInt8) (t : List UInt8) :
    findStartCode (pre ++ (m ++ (kStartCode ++ y :: t))) pre.length =
      some ⟨pre.length + m.length, 4⟩ := by
  rw [findStartCode_eq_firstStartCode, List.drop_left, firstStartCode_kStartCode hm]
  simp [StartCode.shift, Nat.add_comm]

theorem findStartCode_of_no_001 {pre n : List UInt8} (hn : ¬ [0, 0, 1] <:+: n) :
    findStartCode (pre ++ n) pre.length = none := by
  rw [findStartCode_eq_firstStartCode, List.drop_left, firstStartCode_of_no_001 hn]
  rfl

theorem findStartCode_last_byte (pre : List UInt8) (x : UInt8) :
    findStartCode (pre ++ [x]) pre.length = none := by
  rw [findStartCode_eq_firstStartCode, List.drop_left, firstStartCode_eq_none_of_length (by simp)]
  rfl

theorem findStartCode_preamble {g s : List UInt8} (hg : ¬ [0, 0, 1] <:+: g) (hs : IsStartCode s)
    (y : UInt8) (t : List UInt8) :
    ∃ o k, findStartCode (g ++ (s ++ y :: t)) 0 = some ⟨o, k⟩ ∧ o + k = g.length + s.length := by
  obtain ⟨o, k, h, hok⟩ := firstStartCode_preamble hg hs y t
  exact ⟨o, k, by rw [findStartCode_eq_firstStartCode, List.drop_zero, h]; rfl, hok⟩

/-! ## 2. Framings the scan reads back -/

/-- Each NAL after its start code. -/
def frameUnits (units : List (List UInt8 × List UInt8)) : List UInt8 :=
  units.flatMap fun u => u.1 ++ u.2

@[simp] theorem frameUnits_nil : frameUnits [] = [] := rfl

@[simp] theorem frameUnits_cons (u : List UInt8 × List UInt8) (us : List (List UInt8 × List UInt8)) :
    frameUnits (u :: us) = u.1 ++ (u.2 ++ frameUnits us) := by
  simp [frameUnits]

/-- `emit_access_unit`'s framing: every NAL after `kStartCode`. -/
theorem annexBFrame_eq_frameUnits (ns : List (List UInt8)) :
    annexBFrame ns = frameUnits (ns.map (kStartCode, ·)) := by
  induction ns with
  | nil => rfl
  | cons n ns ih => rw [annexBFrame_cons, ih]; rfl

theorem annexBNals_eq (chunks : List (List UInt8)) :
    annexBNals chunks = (scanLoop recordNal chunks.flatten 0 []).2.2 := by
  rw [annexBNals, annexBRunWith_nil]
  rfl

/-- From a start code that ends where a nonempty NAL begins, with the next start code found right
    after the NAL, the next pass hands that NAL on and moves to that start code. -/
theorem scanLoop_passes_nal {S pre n rest : List UInt8} {p k k' : Nat}
    (hS : S = pre ++ (n ++ rest)) (hp : findStartCode S p = some ⟨p, k⟩) (hpk : p + k = pre.length)
    (hn : n ≠ []) (hnext : findStartCode S pre.length = some ⟨pre.length + n.length, k'⟩)
    (ns : List (List UInt8)) :
    scanLoop recordNal S p ns = scanLoop recordNal S (pre.length + n.length) (ns ++ [n]) := by
  refine scanLoop_of_some recordNal (r := (S, pre.length + n.length, ns ++ [n])) ?_
  rw [scanIteration_of_startCode recordNal hp, hpk, hnext]
  have hnal : (S.drop pre.length).take (pre.length + n.length - pre.length) = n := by
    rw [hS, List.drop_left, Nat.add_sub_cancel_left, List.take_left]
  have hpos : pre.length + n.length - pre.length > 0 := by
    have := List.length_pos.mpr hn; omega
  simp only [Option.map_some', hnal, if_pos hpos, recordNal]

/-- A way of framing NALs that the scan reads back: the NALs it admits are nonempty and free of
    `00 00 01`, the start codes it admits are start codes, and right after an admitted NAL the scan
    finds the admitted start code that follows it, where it begins. -/
structure NalFraming where
  nal : List UInt8 → Prop
  code : List UInt8 → Prop
  nal_ok : ∀ {n}, nal n → n ≠ [] ∧ ¬ [0, 0, 1] <:+: n
  code_ok : ∀ {s}, code s → IsStartCode s
  sep : ∀ {n s}, nal n → code s → ∀ (pre : List UInt8) (y : UInt8) (t : List UInt8),
    findStartCode (pre ++ (n ++ (s ++ y :: t))) pre.length = some ⟨pre.length + n.length, s.length⟩

/-- Delimitable NALs after 3- or 4-byte start codes. -/
def NalFraming.delimited : NalFraming where
  nal := Delimitable
  code := IsStartCode
  nal_ok hn := ⟨hn.1, hn.2.1⟩
  code_ok hs := hs
  sep hn hs _ := findStartCode_delimitable hn hs

/-- Nonempty NALs free of `00 00 01` after `kStartCode`, as `emit_access_unit` writes them: a NAL
    may end in `00` here, which it may not behind a 3-byte start code. -/
def NalFraming.canonical : NalFraming where
  nal n := n ≠ [] ∧ ¬ [0, 0, 1] <:+: n
  code s := s = kStartCode
  nal_ok hn := hn
  code_ok hs := hs ▸ .inr rfl
  sep hn hs _ y t := by subst hs; exact findStartCode_kStartCode hn.2 y t

theorem NalFraming.canonical_units {ns : List (List UInt8)}
    (hns : ∀ n ∈ ns, n ≠ [] ∧ ¬ [0, 0, 1] <:+: n) :
    ∀ u ∈ ns.map (kStartCode, ·), canonical.code u.1 ∧ canonical.nal u.2 := by
  intro u hu
  obtain ⟨n, hn, rfl⟩ := List.mem_map.mp hu
  exact ⟨rfl, hns n hn⟩

/-- What the scan passes from the start code before an admitted NAL `n` that the ending `e`
    follows: `r n`, after the NALs it had. -/
def NalFraming.ScanEnds (F : NalFraming) (e : List UInt8) (r : List UInt8 → List (List UInt8)) :
    Prop :=
  ∀ (S pre n : List UInt8) (p k : Nat) (acc : List (List UInt8)), S = pre ++ (n ++ e) → F.nal n →
    findStartCode S p = some ⟨p, k⟩ → p + k = pre.length →
    (scanLoop recordNal S p acc).2.2 = acc ++ r n

/-- Followed by an admitted start code and one more byte, the last NAL is passed. -/
theorem NalFraming.scanEnds_closed (F : NalFraming) {s : List UInt8} (hs : F.code s) (x : UInt8) :
    F.ScanEnds (s ++ [x]) ([·]) := by
  intro S pre n p k acc hS hn hp hpk
  have hnext : findStartCode S pre.length = some ⟨pre.length + n.length, s.length⟩ := by
    rw [hS]; exact F.sep hn hs pre x []
  have hend : findStartCode S (pre.length + n.length + s.length) = none := by
    rw [hS]; simpa [Nat.add_assoc] using findStartCode_last_byte (pre ++ n ++ s) x
  rw [scanLoop_passes_nal hS hp hpk (F.nal_ok hn).1 hnext, scanLoop_of_none recordNal
    (by rw [scanIteration_of_startCode recordNal (findStartCode_refind hnext), hend]; rfl)]

/-- Followed by the end of the stream, the last NAL is not passed. -/
theorem NalFraming.scanEnds_open (F : NalFraming) : F.ScanEnds [] fun _ => [] := by
  intro S pre n p k acc hS hn hp hpk
  have hend : findStartCode S (p + k) = none := by
    rw [hpk, hS, List.append_nil]; exact findStartCode_of_no_001 (F.nal_ok hn).2
  rw [scanLoop_of_none recordNal (by rw [scanIteration_of_startCode recordNal hp, hend]; rfl)]
  simp

/-- **The scan reads a framing back.** From the start code before an admitted NAL `n`, admitted
    NALs each after an admitted start code, then the ending `e`, are passed in order; the last as
    `e` decides. -/
theorem NalFraming.scanLoop_framed (F : NalFraming) {e : List UInt8}
    {r : List UInt8 → List (List UInt8)} (hend : F.ScanEnds e r)
    (units : List (List UInt8 × List UInt8)) (hunits : ∀ u ∈ units, F.code u.1 ∧ F.nal u.2) :
    ∀ (S pre n : List UInt8) (p k : Nat) (acc : List (List UInt8)),
      S = pre ++ (n ++ (frameUnits units ++ e)) → F.nal n →
      findStartCode S p = some ⟨p, k⟩ → p + k = pre.length →
      (scanLoop recordNal S p acc).2.2 = acc ++ (n :: units.map (·.2)).dropLast ++
        r ((n :: units.map (·.2)).getLast (List.cons_ne_nil _ _)) := by
  induction units with
  | nil =>
    intro S pre n p k acc hS hn hp hpk
    simpa using hend S pre n p k acc (by simpa using hS) hn hp hpk
  | cons u us ih =>
    intro S pre n p k acc hS hn hp hpk
    obtain ⟨hu1, hu2⟩ := hunits u (List.mem_cons_self _ _)
    obtain ⟨y, t, ht⟩ := List.exists_cons_of_ne_nil (F.nal_ok hu2).1
    have hnext : findStartCode S pre.length = some ⟨pre.length + n.length, u.1.length⟩ := by
      rw [hS, frameUnits_cons, ht]
      simpa using F.sep hn hu1 pre y (t ++ (frameUnits us ++ e))
    rw [scanLoop_passes_nal hS hp hpk (F.nal_ok hn).1 hnext,
      ih (fun v hv => hunits v (List.mem_cons_of_mem _ hv)) S (pre ++ n ++ u.1) u.2 _ _ _
        (hS.trans (by simp)) hu2 (findStartCode_refind hnext) (by simp [Nat.add_assoc])]
    simp

/-- Behind a preamble free of `00 00 01`, admitted NALs each after an admitted start code, then the
    ending `e`, are passed in order; the last as `e` decides. -/
theorem NalFraming.scanLoop_decodes (F : NalFraming) {e : List UInt8}
    {r : List UInt8 → List (List UInt8)} (hend : F.ScanEnds e r) {g : List UInt8}
    (hg : ¬ [0, 0, 1] <:+: g) (u : List UInt8 × List UInt8) (us : List (List UInt8 × List UInt8))
    (hunits : ∀ v ∈ u :: us, F.code v.1 ∧ F.nal v.2) :
    (scanLoop recordNal (g ++ frameUnits (u :: us) ++ e) 0 []).2.2 =
      (u.2 :: us.map (·.2)).dropLast ++ r ((u.2 :: us.map (·.2)).getLast (List.cons_ne_nil _ _)) := by
  obtain ⟨hu1, hu2⟩ := hunits u (List.mem_cons_self _ _)
  obtain ⟨y, t, ht⟩ := List.exists_cons_of_ne_nil (F.nal_ok hu2).1
  obtain ⟨o, k, hf, hok⟩ := findStartCode_preamble hg (F.code_ok hu1) y (t ++ (frameUnits us ++ e))
  rw [show g ++ (u.1 ++ y :: (t ++ (frameUnits us ++ e))) = g ++ frameUnits (u :: us) ++ e by
    simp [ht]] at hf
  rw [scanLoop_zero_of_found recordNal hf]
  exact (F.scanLoop_framed hend us (fun v hv => hunits v (List.mem_cons_of_mem _ hv)) _
    (g ++ u.1) u.2 o k [] (by simp) hu2 (findStartCode_refind hf) (by simpa using hok)).trans
    (by rw [List.nil_append])

/-! ## 3. Annex-B decoding undoes Annex-B encoding -/

/-- Behind a preamble free of `00 00 01`, delimitable NALs framed by start codes and followed by a
    start code and a byte are all passed. -/
theorem scanLoop_decodes_closed {g : List UInt8} {units : List (List UInt8 × List UInt8)}
    (hg : ¬ [0, 0, 1] <:+: g) (hunits : ∀ u ∈ units, IsStartCode u.1 ∧ Delimitable u.2)
    {s : List UInt8} (hs : IsStartCode s) (x : UInt8) :
    (scanLoop recordNal (g ++ frameUnits units ++ s ++ [x]) 0 []).2.2 = units.map (·.2) := by
  cases units with
  | nil =>
    obtain ⟨o, k, hf, hok⟩ := findStartCode_preamble hg hs x []
    rw [show g ++ (s ++ [x]) = g ++ frameUnits [] ++ s ++ [x] by simp] at hf
    have hend : findStartCode (g ++ frameUnits [] ++ s ++ [x]) (o + k) = none := by
      rw [hok]; simpa using findStartCode_last_byte (g ++ s) x
    rw [scanLoop_zero_of_found recordNal hf, scanLoop_of_none recordNal
      (by rw [scanIteration_of_startCode recordNal (findStartCode_refind hf), hend]; rfl)]
    rfl
  | cons u us =>
    rw [List.append_assoc, NalFraming.delimited.scanLoop_decodes
      (NalFraming.delimited.scanEnds_closed hs x) hg u us hunits]
    exact List.dropLast_append_getLast _

/-- Behind a preamble free of `00 00 01`, delimitable NALs framed by start codes and followed by
    the end of the stream are passed but for the last. -/
theorem scanLoop_decodes_open {g : List UInt8} {units : List (List UInt8 × List UInt8)}
    (hg : ¬ [0, 0, 1] <:+: g) (hunits : ∀ u ∈ units, IsStartCode u.1 ∧ Delimitable u.2) :
    (scanLoop recordNal (g ++ frameUnits units) 0 []).2.2 = (units.map (·.2)).dropLast := by
  cases units with
  | nil =>
    rw [scanLoop_zero_of_none recordNal (by
      rw [frameUnits_nil, List.append_nil, findStartCode_eq_firstStartCode,
        firstStartCode_of_no_001 (by simpa using hg)]; rfl)]
    rfl
  | cons u us =>
    have := NalFraming.delimited.scanLoop_decodes NalFraming.delimited.scanEnds_open hg u us hunits
    rw [List.append_nil, List.append_nil] at this
    exact this

/-- **Annex-B decoding undoes Annex-B encoding.** For NALs that are nonempty, free of `00 00 01`
    and not ending in `00`, each after a 3- or 4-byte start code, behind any preamble free of
    `00 00 01`, and for every `recv` chunking: followed by a start code and one more byte, the NALs
    are passed to `emit_access_unit` exactly and in order; followed by the end of the stream, all
    but the last are. -/
theorem annexB_decodes_encoding (g : List UInt8) (units : List (List UInt8 × List UInt8))
    (hg : ¬ [0, 0, 1] <:+: g) (hunits : ∀ u ∈ units, IsStartCode u.1 ∧ Delimitable u.2)
    (s : List UInt8) (hs : IsStartCode s) (x : UInt8) (chunks : List (List UInt8)) :
    (chunks.flatten = g ++ frameUnits units ++ s ++ [x] →
      annexBNals chunks = units.map (·.2)) ∧
    (chunks.flatten = g ++ frameUnits units →
      annexBNals chunks = (units.map (·.2)).dropLast) :=
  ⟨fun hS => by rw [annexBNals_eq, hS]; exact scanLoop_decodes_closed hg hunits hs x,
    fun hS => by rw [annexBNals_eq, hS]; exact scanLoop_decodes_open hg hunits⟩

/-- An SPS and an IDR slice behind a one-byte preamble, received in three chunks that cut through
    both start codes. -/
theorem annexB_decodes_sps_idr_chunked :
    annexBNals [[7, 0, 0], [0, 1, 0x67, 0, 0, 1, 0x65], [0x88, 0, 0, 1, 9]] =
      [[0x67], [0x65, 0x88]] :=
  (annexB_decodes_encoding [7] [([0, 0, 0, 1], [0x67]), ([0, 0, 1], [0x65, 0x88])] (by decide)
    (by decide) [0, 0, 1] (by decide) 9 _).1 rfl

/-- Nonempty NALs free of `00 00 01` framed as `emit_access_unit` frames them, followed by
    `kStartCode` and one more byte, are read back exactly, in every `recv` chunking. -/
theorem annexBNals_annexBFrame {ns : List (List UInt8)} (hns : ∀ n ∈ ns, n ≠ [] ∧ ¬ [0, 0, 1] <:+: n)
    (x : UInt8) {chunks : List (List UInt8)} (h : chunks.flatten = annexBFrame ns ++ kStartCode ++ [x]) :
    annexBNals chunks = ns := by
  rw [annexBNals_eq, h]
  cases ns with
  | nil => simpa using @scanLoop_decodes_closed [] [] (by simp) (by simp) kStartCode (.inr rfl) x
  | cons n ns =>
    have h := NalFraming.canonical.scanLoop_decodes (NalFraming.canonical.scanEnds_closed rfl x)
      (g := []) (by simp) (kStartCode, n) (ns.map (kStartCode, ·)) (NalFraming.canonical_units hns)
    rw [List.nil_append, ← List.append_assoc] at h
    rw [annexBFrame_eq_frameUnits, List.map_cons, h, List.dropLast_append_getLast]
    simp [Function.comp_def]

/-- Nonempty NALs free of `00 00 01` framed as `emit_access_unit` frames them, up to the end of
    the stream, are read back but for the last, in every `recv` chunking. -/
theorem annexBNals_annexBFrame_open {ns : List (List UInt8)}
    (hns : ∀ n ∈ ns, n ≠ [] ∧ ¬ [0, 0, 1] <:+: n) {chunks : List (List UInt8)}
    (h : chunks.flatten = annexBFrame ns) : annexBNals chunks = ns.dropLast := by
  rw [annexBNals_eq, h]
  cases ns with
  | nil => exact congrArg (·.2.2) (scanLoop_zero_of_none recordNal (rfl : findStartCode [] 0 = none) [])
  | cons n ns =>
    have h := NalFraming.canonical.scanLoop_decodes NalFraming.canonical.scanEnds_open
      (g := []) (by simp) (kStartCode, n) (ns.map (kStartCode, ·)) (NalFraming.canonical_units hns)
    rw [List.nil_append, List.append_nil, List.append_nil] at h
    rw [annexBFrame_eq_frameUnits, List.map_cons, h]
    simp [Function.comp_def]

/-! ## 4. What `stream_buf` keeps -/

/-- The start codes the scan of the bytes `received` goes through: the first one found from the
    start, then each one found from the end of the one before. -/
inductive ScanFinds (received : List UInt8) : Nat → Nat → Prop
  | first {o k : Nat} : findStartCode received 0 = some ⟨o, k⟩ → ScanFinds received o k
  | next {o k o' k' : Nat} : ScanFinds received o k →
      findStartCode received (o + k) = some ⟨o', k'⟩ → ScanFinds received o' k'

theorem ScanFinds.found {R : List UInt8} {o k : Nat} (h : ScanFinds R o k) :
    findStartCode R o = some ⟨o, k⟩ := by
  cases h with
  | first h => exact findStartCode_refind h
  | next _ h => exact findStartCode_refind h

/-- From a start code the scan has found, the loop stops on a found start code with no start code
    after it. -/
theorem scanLoop_scanFinds {σ : Type} (emit : σ → List UInt8 → Bool → σ) {R : List UInt8}
    {o k : Nat} (h : ScanFinds R o k) (acc : σ) :
    ∃ k', ScanFinds R (scanLoop emit R o acc).2.1 k' ∧
      findStartCode R ((scanLoop emit R o acc).2.1 + k') = none := by
  induction R, o, acc using scanLoop.induct emit generalizing k with
  | case1 R o acc hit =>
    rw [scanLoop_of_none emit hit]
    rw [scanIteration_of_startCode emit h.found, Option.map_eq_none'] at hit
    exact ⟨k, h, hit⟩
  | case2 R o acc r hit ih =>
    have hit' := hit
    rw [scanIteration_of_startCode emit h.found] at hit'
    obtain ⟨⟨o', k'⟩, hnx, rfl⟩ := Option.map_eq_some'.mp hit'
    rw [scanLoop_of_some emit hit]
    exact ih (h.next hnx)

/-- After one iteration from an empty `stream_buf`, the buffer is the bytes from the last start
    code the scan found, or all of them if it found none. -/
theorem annexBIteration_streamBuf {σ : Type} (emit : σ → List UInt8 → Bool → σ) (acc : σ)
    (R : List UInt8) :
    (findStartCode R 0 = none ∧ (annexBIteration emit [] acc R).1 = R) ∨
    (∃ o k, ScanFinds R o k ∧ findStartCode R (o + k) = none ∧
      (annexBIteration emit [] acc R).1 = R.drop o) := by
  cases h : findStartCode R 0 with
  | none =>
    left
    simp [annexBIteration, scanLoop_zero_of_none emit h]
  | some sc =>
    right
    obtain ⟨o, k⟩ := sc
    obtain ⟨h1, h2, -⟩ := scanLoop_of_startCode emit (findStartCode_refind h) acc
    obtain ⟨k', hfind, hnone⟩ := scanLoop_scanFinds emit (ScanFinds.first h) acc
    refine ⟨_, k', hfind, hnone, ?_⟩
    simp only [annexBIteration, List.nil_append, scanLoop_zero_of_found emit h, h1]
    split_ifs with hpos
    · rw [List.drop_drop, Nat.add_sub_cancel' h2]
    · rw [show (scanLoop emit R o acc).2.1 = o by simp at h2 hpos ⊢; omega]

/-- **Annex-B accumulator invariant.** For every stream and every partition into `recv` chunks,
    after each iteration `stream_buf` is the suffix of the bytes received so far that begins at the
    last start code the scan has found, or all of them if it has found none; the buffer then begins
    with that start code and no second start code is found after it. -/
theorem annexBRun_streamBuf_from_last_startCode (chunks : List (List UInt8)) :
    (findStartCode chunks.flatten 0 = none ∧
        (annexBRun AnnexBState.init chunks).1.streamBuf = chunks.flatten) ∨
    (∃ o k, ScanFinds chunks.flatten o k ∧ findStartCode chunks.flatten (o + k) = none ∧
        (annexBRun AnnexBState.init chunks).1.streamBuf = chunks.flatten.drop o ∧
        findStartCode (annexBRun AnnexBState.init chunks).1.streamBuf 0 = some ⟨0, k⟩ ∧
        findStartCode (annexBRun AnnexBState.init chunks).1.streamBuf k = none) := by
  have hbuf : (annexBRun AnnexBState.init chunks).1.streamBuf =
      (annexBIteration recordNal [] [] chunks.flatten).1 := by
    rw [annexBRun_eq_runAssembler, annexBRunWith_nil]
  rw [hbuf]
  rcases annexBIteration_streamBuf recordNal [] chunks.flatten with h | ⟨o, k, hf, hnone, hb⟩
  · exact .inl h
  · refine .inr ⟨o, k, hf, hnone, hb, ?_, ?_⟩
    · rw [hb, ← Nat.sub_self o, findStartCode_drop _ (le_refl o), hf.found]; rfl
    · rw [hb, show k = o + k - o by omega, findStartCode_drop _ (by omega), hnone]; rfl

/-! ## 5. What every stream decodes to -/

/-- The bytes from `i` are those from `i` to `j`, then those from `j`. -/
theorem drop_eq_take_append_drop (l : List UInt8) {i j : Nat} (h : i ≤ j) :
    l.drop i = (l.drop i).take (j - i) ++ l.drop j := by
  have := List.take_append_drop (j - i) (l.drop i)
  rwa [List.drop_drop, Nat.add_sub_cancel' h, eq_comm] at this

/-- `00 00 01` followed by a byte is a start code. -/
theorem startCodeHere_001_append {t : List UInt8} (ht : t ≠ []) :
    startCodeHere ([0, 0, 1] ++ t) = some 3 := by
  obtain ⟨y, u, rfl⟩ := List.exists_cons_of_ne_nil ht
  exact startCodeHere_startCode (.inl rfl) y u

/-- No `00 00 01` lies wholly between where a search starts and the start code it finds. -/
theorem no_001_before_findStartCode {R : List UInt8} {a : Nat} {sc : StartCode}
    (h : findStartCode R a = some sc) : ¬ [0, 0, 1] <:+: (R.drop a).take (sc.offset - a) := by
  obtain ⟨ha, hfound, hleft⟩ := findStartCode_eq_some_iff.mp h
  rintro ⟨s, t, hst⟩
  have hR : R.drop a = s ++ ([0, 0, 1] ++ (t ++ R.drop sc.offset)) := by
    rw [drop_eq_take_append_drop R ha, ← hst]
    simp
  have hlen : s.length + 3 ≤ sc.offset - a := by
    have := congrArg List.length hst
    simp at this
    omega
  have hne : R.drop sc.offset ≠ [] :=
    List.ne_nil_of_length_pos (by have := (startCodeHere_size hfound).2; omega)
  have := hleft (a + s.length) (by omega) (by omega)
  rw [← List.drop_drop, hR, List.drop_left, startCodeHere_001_append (by simp [hne])] at this
  cases this

/-- The bytes between consecutive start codes of `R`: from the end of each to the start of the
    next. -/
def scanGaps (R : List UInt8) : List StartCode → List (List UInt8)
  | a :: b :: rest =>
    (R.drop (a.offset + a.size)).take (b.offset - (a.offset + a.size)) :: scanGaps R (b :: rest)
  | _ => []

/-- `scs` are the start codes the scan of `R` goes through: the first found from the start, each
    next one found from the end of the one before, and none found after the last. -/
def ScanChain (R : List UInt8) (scs : List StartCode) : Prop :=
  findStartCode R 0 = scs.head? ∧
    List.Chain' (fun a b => findStartCode R (a.offset + a.size) = some b) scs ∧
    ∀ l ∈ scs.getLast?, findStartCode R (l.offset + l.size) = none

/-- From a start code the scan has found, the loop goes through a chain of start codes, each
    found from the end of the one before and none after the last; the bytes between two of them
    hold no `00 00 01`, and the NALs recorded are those that are not empty. -/
theorem scanLoop_chain {buf : List UInt8} {pos k : Nat}
    (hp : findStartCode buf pos = some ⟨pos, k⟩) (ns : List (List UInt8)) :
    ∃ scs : List StartCode,
      List.Chain' (fun a b => findStartCode buf (a.offset + a.size) = some b) (⟨pos, k⟩ :: scs) ∧
      (∀ l ∈ (⟨pos, k⟩ :: scs).getLast?, findStartCode buf (l.offset + l.size) = none) ∧
      (∀ sc ∈ (⟨pos, k⟩ :: scs : List StartCode), IsStartCode ((buf.drop sc.offset).take sc.size)) ∧
      (∀ n ∈ scanGaps buf (⟨pos, k⟩ :: scs), ¬ [0, 0, 1] <:+: n) ∧
      (scanLoop recordNal buf pos ns).2.2 = ns ++ (scanGaps buf (⟨pos, k⟩ :: scs)).filter (· ≠ []) := by
  have hsc : IsStartCode ((buf.drop pos).take k) :=
    isStartCode_take_of_startCodeHere (findStartCode_eq_some_iff.mp hp).2.1
  induction buf, pos, ns using scanLoop.induct recordNal generalizing k with
  | case1 buf pos ns h =>
    have hnone := h
    rw [scanIteration_of_startCode recordNal hp, Option.map_eq_none'] at hnone
    exact ⟨[], .nil, by simpa using hnone, by simpa using hsc, by simp [scanGaps],
      by simp [scanLoop_of_none recordNal h, scanGaps]⟩
  | case2 buf pos ns r h ih =>
    have h' := h
    rw [scanIteration_of_startCode recordNal hp] at h'
    obtain ⟨⟨o', k'⟩, hnx, rfl⟩ := Option.map_eq_some'.mp h'
    have hnx' := findStartCode_refind hnx
    obtain ⟨scs, h1, h2, h3, h4, h5⟩ :=
      ih hnx' (isStartCode_take_of_startCodeHere (findStartCode_eq_some_iff.mp hnx').2.1)
    have hb := findStartCode_bound hnx
    refine ⟨⟨o', k'⟩ :: scs, .cons hnx h1, by simpa using h2, List.forall_mem_cons.mpr ⟨hsc, h3⟩,
      List.forall_mem_cons.mpr ⟨no_001_before_findStartCode hnx, h4⟩, ?_⟩
    rw [scanLoop_of_some recordNal h, h5]
    by_cases hm : o' - (pos + k) > 0
    · have hne : (buf.drop (pos + k)).take (o' - (pos + k)) ≠ [] := by
        simp only [ne_eq, List.take_eq_nil_iff, List.drop_eq_nil_iff]
        simp only at hb
        omega
      simp [hm, hne, recordNal, scanGaps]
    · simp [hm, show o' - (pos + k) = 0 by omega, scanGaps]

/-- The NALs found in the bytes of some chunks begin the NALs found in those bytes and more. -/
theorem annexBNals_append (chunks : List (List UInt8)) (b : List UInt8) :
    annexBNals chunks <+: annexBNals [chunks.flatten ++ b] := by
  have hrec := scanLoop_map recordNal ((scanLoop recordNal chunks.flatten 0 []).2.2 ++ ·)
    (fun _ _ _ => by simp [recordNal]) ((scanLoop recordNal chunks.flatten 0 []).1 ++ b)
    (scanLoop recordNal chunks.flatten 0 []).2.1 []
  simp only [List.append_nil] at hrec
  simp only [annexBNals_eq, List.flatten_cons, List.flatten_nil, List.append_nil]
  rw [scanLoop_append, hrec]
  exact List.prefix_append _ _

/-- **What the Annex-B reader accepts.** Whatever bytes arrive, in whatever `recv` chunks, the scan
    goes through a chain of start codes: the first found from the start, each next one found from
    the end of the one before, none after the last. No `00 00 01` lies before the first of them or
    between two of them, and the NALs passed to `emit_access_unit` are, in order, the pieces
    between consecutive start codes that are not empty. The converse of
    `annexB_decodes_encoding`. -/
theorem annexBNals_framed (chunks : List (List UInt8)) :
    ∃ scs : List StartCode, ScanChain chunks.flatten scs ∧
      (∀ sc ∈ scs, IsStartCode ((chunks.flatten.drop sc.offset).take sc.size)) ∧
      (∀ sc ∈ scs.head?, ¬ [0, 0, 1] <:+: chunks.flatten.take sc.offset) ∧
      (∀ n ∈ scanGaps chunks.flatten scs, ¬ [0, 0, 1] <:+: n) ∧
      annexBNals chunks = (scanGaps chunks.flatten scs).filter (· ≠ []) := by
  rw [annexBNals_eq]
  generalize chunks.flatten = R
  cases h : findStartCode R 0 with
  | none =>
    refine ⟨[], ⟨h, trivial, by simp⟩, by simp, by simp, by simp [scanGaps], ?_⟩
    rw [scanLoop_zero_of_none recordNal h]
    rfl
  | some sc =>
    obtain ⟨o, k⟩ := sc
    obtain ⟨scs, h1, h2, h3, h4, h5⟩ := scanLoop_chain (findStartCode_refind h) []
    refine ⟨⟨o, k⟩ :: scs, ⟨h, h1, h2⟩, h3, by simpa using no_001_before_findStartCode h, h4, ?_⟩
    rw [scanLoop_zero_of_found recordNal h]
    exact h5.trans (List.nil_append _)

/-- Every NAL the scan passes is nonempty and free of `00 00 01`. -/
theorem annexBNals_wellFormed (chunks : List (List UInt8)) :
    ∀ n ∈ annexBNals chunks, n ≠ [] ∧ ¬ [0, 0, 1] <:+: n := by
  rw [annexBNals_eq]
  generalize chunks.flatten = R
  cases h : findStartCode R 0 with
  | none => simp [scanLoop_zero_of_none recordNal h]
  | some sc =>
    obtain ⟨o, k⟩ := sc
    obtain ⟨scs, -, -, -, h4, h5⟩ := scanLoop_chain (findStartCode_refind h) []
    rw [scanLoop_zero_of_found recordNal h]
    dsimp only
    rw [h5, List.nil_append]
    intro n hn
    obtain ⟨hn1, hn2⟩ := List.mem_filter.mp hn
    exact ⟨by simpa using hn2, h4 n hn1⟩

end PublishH264
