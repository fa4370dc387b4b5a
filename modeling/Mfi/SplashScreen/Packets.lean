import Mfi.SplashScreen.Stream

/-!
# Well-formed streams

A stream of video packets alternates between control packets, which carry the
size of the picture digit by digit, and data packets, which carry its pixels.
The packet's first word tells its type. The generator ends its data packets
one beat too early, so its stream is never well formed.
-/

namespace Mfi.SplashScreen

open Core

/-! ## Packets -/

/-- The words of a packet with start-of-packet on the first and end-of-packet on the last. -/
def framed {w : Nat} (words : List (BitVec w)) : List (Beat w) :=
  words.zipIdx.map fun d => ⟨d.2 == 0, d.2 + 1 == words.length, d.1⟩

/-- The packet type is in the low digit of the first word. -/
def packetType {w : Nat} (head : BitVec w) : BitVec 4 := head.setWidth 4

def symbols (p : Params) (word : BitVec p.beatWidth) : List (BitVec 8) :=
  (List.range (3 * p.pixelsInParallel.count)).map fun i => word.extractLsb' (8 * i) 8

def pixels (p : Params) (word : BitVec p.beatWidth) : List (BitVec 24) :=
  (List.range p.pixelsInParallel.count).map fun i => word.extractLsb' (24 * i) 24

def sizeOf (a b c d : BitVec 8) : BitVec 16 :=
  a.setWidth 4 ++ b.setWidth 4 ++ c.setWidth 4 ++ d.setWidth 4

/-- Width, height and whether the picture is progressive, from the symbols of a control packet. -/
def decodeControl : List (BitVec 8) → Option (BitVec 16 × BitVec 16 × Bool)
  | w3 :: w2 :: w1 :: w0 :: h3 :: h2 :: h1 :: h0 :: interlace :: _ =>
      some (sizeOf w3 w2 w1 w0, sizeOf h3 h2 h1 h0, !interlace.getLsbD 3)
  | _ => none

def Params.area (p : Params) : Nat := p.picWidth.toNat * p.picHeight.toNat

def picture (p : Params) (rom : Nat → BitVec 16) : List (BitVec 24) :=
  (List.range p.area).map fun i => pixel8bit (rom (i / 4)) (i % 4)

/-- A control packet of type 15 with the size of the picture. -/
def ControlPacket (p : Params) (words : List (BitVec p.beatWidth)) : Prop :=
  ∃ head rest, words = head :: rest ∧ packetType head = 15#4 ∧
    decodeControl (rest.flatMap (symbols p)) = some (p.picWidth, p.picHeight, true)

def DataPacket (p : Params) (rom : Nat → BitVec 16) (words : List (BitVec p.beatWidth)) : Prop :=
  ∃ head rest, words = head :: rest ∧ packetType head = 0#4 ∧
    rest.flatMap (pixels p) = picture p rom

/-- The beats are the beginning of an alternation of control and data packets. -/
def WellFormed (p : Params) (rom : Nat → BitVec 16) (stream : List (Beat p.beatWidth)) : Prop :=
  ∃ frames : List (List (BitVec p.beatWidth) × List (BitVec p.beatWidth)),
    (∀ f ∈ frames, ControlPacket p f.1 ∧ DataPacket p rom f.2) ∧
      stream <+: frames.flatMap fun f => framed f.1 ++ framed f.2

/-! ## Ends of packets -/

theorem length_framed {w : Nat} (words : List (BitVec w)) :
    (framed words).length = words.length := by
  rw [framed, List.length_map, List.length_zipIdx]

theorem framed_eop {w : Nat} {words : List (BitVec w)} {i : Nat} (h : i < words.length) :
    (framed words)[i]?.map Beat.endofpacket = some (i + 1 == words.length) := by
  have hi : i < (framed words).length := by rwa [length_framed]
  rw [List.getElem?_eq_getElem hi]
  simp [framed]

theorem length_pixels (p : Params) (word : BitVec p.beatWidth) :
    (pixels p word).length = p.pixelsInParallel.count := by
  rw [pixels, List.length_map, List.length_range]

theorem length_flatMap_pixels (p : Params) (words : List (BitVec p.beatWidth)) :
    (words.flatMap (pixels p)).length = words.length * p.pixelsInParallel.count := by
  induction words with
  | nil => simp
  | cons word words ih =>
      rw [List.flatMap_cons, List.length_append, ih, length_pixels, List.length_cons,
        Nat.succ_mul, Nat.add_comm]

theorem DataPacket.length_eq {p : Params} {rom : Nat → BitVec 16}
    {words : List (BitVec p.beatWidth)} (h : DataPacket p rom words) :
    ∃ m, words.length = m + 1 ∧
      m * p.pixelsInParallel.count = p.area := by
  obtain ⟨head, rest, rfl, _, hpix⟩ := h
  refine ⟨rest.length, rfl, ?_⟩
  rw [← length_flatMap_pixels, hpix, picture, List.length_map, List.length_range]

/-! ## The places of the first two packets -/

/-- The place after `i` beats. -/
def placeAt (p : Params) (i : Nat) : Place p := (next p)^[i] (.control 0)

/-- Whether beat `i` ends a packet. -/
def eopAt (p : Params) (rom : Nat → BitVec 16) (i : Nat) : Bool :=
  (say p rom (placeAt p i)).endofpacket

/-- Address and pixel after `j` beats of pixels. -/
def position (p : Params) (j : Nat) : BitVec p.romAddrBits × BitVec 2 :=
  (fun a => advance p a.1 a.2)^[j] (0, 0#2)

theorem position_succ (p : Params) (j : Nat) :
    position p (j + 1) = advance p (position p j).1 (position p j).2 := by
  rw [position, Function.iterate_succ_apply']
  rfl

theorem placeAt_succ (p : Params) (i : Nat) : placeAt p (i + 1) = next p (placeAt p i) := by
  rw [placeAt, Function.iterate_succ_apply']
  rfl

theorem controlBeats_pos (p : Params) : 2 ≤ controlBeats p := by
  cases hp : p.pixelsInParallel <;> simp [controlBeats, hp]

theorem placeAt_control (p : Params) {i : Nat} (h : i < controlBeats p) :
    placeAt p i = .control i := by
  induction i with
  | zero => rfl
  | succ i ih => rw [placeAt_succ, ih (by omega), next, if_neg (by omega)]

theorem placeAt_header (p : Params) : placeAt p (controlBeats p) = .header := by
  have hpos := controlBeats_pos p
  obtain ⟨i, hi⟩ := Nat.exists_eq_add_of_le' (show 1 ≤ controlBeats p by omega)
  rw [hi, placeAt_succ, placeAt_control p (by omega), next, if_pos hi.symm]

theorem placeAt_pixels (p : Params) {j : Nat}
    (h : ∀ i < j, 1 ≤ i → lastBeat p (position p i).1 (position p i).2 = false) :
    placeAt p (controlBeats p + 1 + j) =
      .pixels (j == 0) (position p j).1 (position p j).2 := by
  induction j with
  | zero =>
      rw [Nat.add_zero, placeAt_succ, placeAt_header]
      rfl
  | succ j ih =>
      have hlast : (!(j == 0) && lastBeat p (position p j).1 (position p j).2) = false := by
        by_cases hj : j = 0
        · rw [hj]
          rfl
        · rw [h j (by omega) (by omega), Bool.and_false]
      rw [← Nat.add_assoc, placeAt_succ, ih (fun i hi => h i (by omega)), next, hlast,
        position_succ]
      rfl

theorem eopAt_control (p : Params) (rom : Nat → BitVec 16) {i : Nat} (h : i < controlBeats p) :
    eopAt p rom i = (i + 1 == controlBeats p) := by
  rw [eopAt, placeAt_control p h, say]

theorem eopAt_pixels (p : Params) (rom : Nat → BitVec 16) {j : Nat}
    (h : ∀ i < j, 1 ≤ i → lastBeat p (position p i).1 (position p i).2 = false) (hj : 1 ≤ j) :
    eopAt p rom (controlBeats p + 1 + j) = lastBeat p (position p j).1 (position p j).2 := by
  have hne : (j == 0) = false := beq_eq_false_iff_ne.mpr (by omega)
  rw [eopAt, placeAt_pixels p h, say, hne]
  rfl

/-! ## The last beat of a whole picture -/

theorem advance_sub_one {p : Params} (hp : p.pixelsInParallel = .one)
    (romAddr : BitVec p.romAddrBits) (subpixCnt : BitVec 2) :
    (advance p romAddr subpixCnt).2.toNat = (subpixCnt.toNat + 1) % 4 := by
  have h4 : ∀ s : BitVec 2, (if s = 3#2 then 0#2 else s + 1).toNat = (s.toNat + 1) % 4 := by
    decide
  rw [← h4 subpixCnt, advance, hp]
  by_cases hs : subpixCnt = 3#2 <;> simp [hs]

theorem position_sub_one {p : Params} (hp : p.pixelsInParallel = .one) (j : Nat) :
    (position p j).2.toNat = j % 4 := by
  induction j with
  | zero => rfl
  | succ j ih =>
      rw [position_succ, advance_sub_one hp, ih]
      omega

theorem advance_sub_two {p : Params} (hp : p.pixelsInParallel = .two)
    (romAddr : BitVec p.romAddrBits) {subpixCnt : BitVec 2} (hlt : subpixCnt.toNat < 2) :
    (advance p romAddr subpixCnt).2.toNat = (subpixCnt.toNat + 1) % 2 := by
  have h2 : ∀ s : BitVec 2, s.toNat < 2 →
      (if s = 1#2 then 0#2 else s + 1).toNat = (s.toNat + 1) % 2 := by
    decide
  rw [← h2 subpixCnt hlt, advance, hp]
  by_cases hs : subpixCnt = 1#2 <;> simp [hs]

theorem position_sub_two {p : Params} (hp : p.pixelsInParallel = .two) (j : Nat) :
    (position p j).2.toNat = j % 2 := by
  induction j with
  | zero => rfl
  | succ j ih =>
      rw [position_succ, advance_sub_two hp _ (by omega), ih]
      omega

theorem position_addr_four {p : Params} (hp : p.pixelsInParallel = .four) (j : Nat) :
    (position p (j + 1)).1 =
      if (position p j).1.toNat < (p.words - 1).toNat then (position p j).1 + 1 else 0 := by
  rw [position_succ, advance, hp]
  simp

theorem toNat_words (p : Params) : p.words.toNat = p.area % 65536 / 4 := by
  have htotal : p.totalPix.toNat = p.area % 65536 := BitVec.toNat_mul p.picWidth p.picHeight
  rw [Params.words, BitVec.toNat_setWidth, BitVec.toNat_ushiftRight, htotal,
    Nat.shiftRight_eq_div_pow]
  omega

theorem toNat_totalPix_shift (p : Params) : (p.totalPix >>> 2).toNat = p.words.toNat := by
  rw [Params.words, BitVec.toNat_setWidth]
  have := (p.totalPix >>> 2).isLt
  omega

theorem romAddr_lt {p : Params} (romAddr : BitVec p.romAddrBits) : romAddr.toNat < 16384 := by
  have hbits : p.romAddrBits ≤ 14 := by
    have hle : (p.totalPix >>> 2).toNat ≤ 2 ^ 14 := by
      rw [toNat_totalPix_shift, toNat_words]
      omega
    have hclog : Nat.clog 2 (p.totalPix >>> 2).toNat ≤ 14 := Nat.clog_le_of_le_pow hle
    unfold Params.romAddrBits
    split <;> omega
  have hpow : 2 ^ p.romAddrBits ≤ 2 ^ 14 := Nat.pow_le_pow_right (by omega) hbits
  have hlt := romAddr.isLt
  omega

theorem position_addr_eq {p : Params} (hp : p.pixelsInParallel = .four) (hwords : 2 ≤ p.words.toNat)
    {j : Nat} (hj : j < p.words.toNat) : (position p j).1.toNat = j := by
  have hroom : p.words.toNat ≤ 2 ^ p.romAddrBits := by
    have hle : p.words.toNat ≤ 2 ^ Nat.clog 2 p.words.toNat := Nat.le_pow_clog (by omega) _
    have hpos : Nat.clog 2 p.words.toNat ≠ 0 := (Nat.clog_pos (by omega) hwords).ne'
    rwa [Params.romAddrBits, toNat_totalPix_shift, if_neg hpos]
  have hlast : (p.words - 1).toNat = p.words.toNat - 1 := by
    rw [BitVec.toNat_sub_of_le]
    · rfl
    · show 1 ≤ p.words.toNat
      omega
  induction j with
  | zero =>
      show (0 : BitVec p.romAddrBits).toNat = 0
      exact BitVec.toNat_zero
  | succ j ih =>
      have hbefore := ih (by omega)
      rw [position_addr_four hp, if_pos (by omega), toNat_add_one (by omega), hbefore]

theorem toNat_words_sub_two {p : Params} (hwords : 2 ≤ p.words.toNat) :
    (p.words - 2).toNat = p.words.toNat - 2 := by
  rw [BitVec.toNat_sub_of_le]
  · rfl
  · exact hwords

/-- With four pixels in a beat the test is met before the last one, or never. -/
theorem not_last_four {p : Params} (hp : p.pixelsInParallel = .four) {m : Nat}
    (hm : m * 4 = p.area) (h16 : 16 ≤ p.area)
    (hearlier : ∀ i < m - 1, 1 ≤ i → lastBeat p (position p i).1 (position p i).2 = false) :
    lastBeat p (position p (m - 1)).1 (position p (m - 1)).2 = false := by
  have htest : ∀ a s, lastBeat p a s = decide ((p.words - 2).toNat ≤ a.toNat) := by
    intro a s
    rw [lastBeat, hp]
  have hw := toNat_words p
  by_cases hwords : 2 ≤ p.words.toNat
  · exfalso
    have hsub := toNat_words_sub_two hwords
    -- The address of the last word, or of the one before, comes earlier.
    by_cases hall : p.words.toNat - 1 < m - 1
    · have hno := hearlier (p.words.toNat - 1) hall (by omega)
      rw [htest, position_addr_eq hp hwords (by omega), decide_eq_false_iff_not] at hno
      omega
    · have hno := hearlier (m - 2) (by omega) (by omega)
      rw [htest, position_addr_eq hp hwords (by omega), decide_eq_false_iff_not] at hno
      omega
  · have hlt := romAddr_lt (position p (m - 1)).1
    rw [htest, decide_eq_false_iff_not]
    have hbig : (p.words - 2).toNat = 4294967294 + p.words.toNat := by
      bv_omega
    omega

/-- The test for the last beat is never met at the last beat of the picture. -/
theorem not_last {p : Params} {m : Nat} (hm : m * p.pixelsInParallel.count = p.area)
    (h4 : 4 ∣ p.area) (h16 : 16 ≤ p.area)
    (hearlier : ∀ i < m - 1, 1 ≤ i → lastBeat p (position p i).1 (position p i).2 = false) :
    lastBeat p (position p (m - 1)).1 (position p (m - 1)).2 = false := by
  cases hp : p.pixelsInParallel with
  | one =>
      rw [hp, show PixelsInParallel.one.count = 1 from rfl] at hm
      have hsub := position_sub_one hp (m - 1)
      have hne : (position p (m - 1)).2 ≠ 2#2 := by
        intro heq
        rw [heq, show (2#2).toNat = 2 from rfl] at hsub
        omega
      rw [lastBeat, hp]
      simp [hne]
  | two =>
      rw [hp, show PixelsInParallel.two.count = 2 from rfl] at hm
      have hsub := position_sub_two hp (m - 1)
      have hne : (position p (m - 1)).2 ≠ 0#2 := by
        intro heq
        rw [heq, show (0#2).toNat = 0 from rfl] at hsub
        omega
      rw [lastBeat, hp]
      simp [hne]
  | four =>
      rw [hp, show PixelsInParallel.four.count = 4 from rfl] at hm
      exact not_last_four hp hm h16 hearlier

/-! ## The stream -/

theorem WellFormed.ends {p : Params} {rom : Nat → BitVec 16} {k : Nat}
    (h : WellFormed p rom (said (next p) (say p rom) (.control 0) k)) (hk : 0 < k) :
    ∃ c d, ControlPacket p c ∧ DataPacket p rom d ∧
      (∀ i < c.length, i < k → eopAt p rom i = (i + 1 == c.length)) ∧
      (∀ i < d.length, c.length + i < k → eopAt p rom (c.length + i) = (i + 1 == d.length)) := by
  obtain ⟨frames, hgood, rest, hprefix⟩ := h
  have hentry : ∀ i < k, (frames.flatMap fun f => framed f.1 ++ framed f.2)[i]?.map
      Beat.endofpacket = some (eopAt p rom i) := by
    intro i hi
    rw [← hprefix, List.getElem?_append_left (by rwa [length_said]),
      getElem?_said _ _ _ hi]
    rfl
  cases frames with
  | nil =>
      have hnone := hentry 0 hk
      cases hnone
  | cons f frames =>
      obtain ⟨hcontrol, hdata⟩ := hgood f (List.mem_cons_self ..)
      refine ⟨f.1, f.2, hcontrol, hdata, ?_, ?_⟩
      · intro i hi hik
        have heq := hentry i hik
        rw [List.flatMap_cons, List.append_assoc,
          List.getElem?_append_left (by rwa [length_framed]), framed_eop hi] at heq
        exact (Option.some.inj heq).symm
      · intro i hi hik
        have heq := hentry (f.1.length + i) hik
        rw [List.flatMap_cons, List.append_assoc,
          List.getElem?_append_right (by rw [length_framed]; omega), length_framed,
          Nat.add_sub_cancel_left, List.getElem?_append_left (by rwa [length_framed]),
          framed_eop hi] at heq
        exact (Option.some.inj heq).symm

/-- A script that is followed to the end of the first data packet is not well formed. -/
theorem not_wellFormed_said {p : Params} {rom : Nat → BitVec 16} (h4 : 4 ∣ p.area)
    (h16 : 16 ≤ p.area) {k : Nat} (hk : controlBeats p + 1 + p.area ≤ k) :
    ¬ WellFormed p rom (said (next p) (say p rom) (.control 0) k) := by
  intro h
  obtain ⟨c, d, hcontrol, hdata, hc, hd⟩ := h.ends (by omega)
  obtain ⟨head, rest, hcons, _, _⟩ := hcontrol
  have hcpos : 0 < c.length := by
    rw [hcons]
    exact Nat.succ_pos _
  have hbeats := controlBeats_pos p
  -- The first packet is the control packet of the generator.
  have hlen : c.length = controlBeats p := by
    rcases Nat.lt_trichotomy c.length (controlBeats p) with hlt | heq | hgt
    · have hend := hc (c.length - 1) (by omega) (by omega)
      rw [eopAt_control p rom (by omega), Nat.sub_add_cancel hcpos, beq_self_eq_true,
        beq_iff_eq] at hend
      omega
    · exact heq
    · have hend := hc (controlBeats p - 1) (by omega) (by omega)
      rw [eopAt_control p rom (by omega), Nat.sub_add_cancel (by omega), beq_self_eq_true] at hend
      have heq := beq_iff_eq.mp hend.symm
      omega
  obtain ⟨m, hdlen, hm⟩ := hdata.length_eq
  rw [hlen, hdlen] at hd
  have hmpos : 4 ≤ m ∧ m ≤ p.area := by
    cases hp : p.pixelsInParallel <;> rw [hp, PixelsInParallel.count] at hm <;> omega
  have hpixel : ∀ j < m, eopAt p rom (controlBeats p + 1 + j) = (j + 1 == m) := by
    intro j hj
    have hend := hd (1 + j) (by omega) (by omega)
    rw [← Nat.add_assoc] at hend
    rw [hend]
    exact Bool.eq_iff_iff.mpr (by simp only [beq_iff_eq]; omega)
  have hearlier : ∀ j, j ≤ m - 1 → ∀ i < j, 1 ≤ i →
      lastBeat p (position p i).1 (position p i).2 = false := by
    intro j
    induction j with
    | zero =>
        intro _ i hi _
        omega
    | succ j ih =>
        intro hj i hi hpos
        by_cases hij : i < j
        · exact ih (by omega) i hij hpos
        · obtain rfl : i = j := by omega
          rw [← eopAt_pixels p rom (ih (by omega)) hpos, hpixel i (by omega)]
          exact beq_eq_false_iff_ne.mpr (by omega)
  have hno := not_last hm h4 h16 (hearlier (m - 1) (Nat.le_refl _))
  have hyes := hpixel (m - 1) (by omega)
  rw [eopAt_pixels p rom (hearlier (m - 1) (Nat.le_refl _)) (by omega), hno] at hyes
  have hne := beq_eq_false_iff_ne.mp hyes.symm
  omega

/-- Whatever the size, the picture and the ready pattern, the stream is not well formed. -/
theorem stream_not_wellFormed {p : Params} (h4 : 4 ∣ p.area) (h16 : 16 ≤ p.area)
    (rom : Nat → BitVec 16) (romData : BitVec 16) (frameTimer : BitVec 23) {inp : Nat → Bool}
    (hready : ∀ n, ∃ m ≥ n, inp m = true) :
    ¬ ∀ n, WellFormed p rom (beats p rom romData frameTimer inp n) := by
  intro h
  obtain ⟨n, k, hk, hsaid⟩ : ∃ n k, controlBeats p + 1 + p.area ≤ k ∧
      beats p rom romData frameTimer inp n = said (next p) (say p rom) (.control 0) k :=
    exists_said romData frameTimer hready _
  have hform := h n
  rw [hsaid] at hform
  exact not_wellFormed_said h4 h16 hk hform

/-- A picture of 400 times 160 pixels, two in a beat, to a sink that is ready in every second
cycle. -/
theorem logo_not_wellFormed :
    ¬ ∀ n, WellFormed ⟨.two, 400#16, 160#16⟩ (fun _ => 0#16)
      (beats ⟨.two, 400#16, 160#16⟩ (fun _ => 0#16) 0#16 0#23 (fun n => n % 2 == 0) n) :=
  stream_not_wellFormed (by decide) (by decide) _ 0#16 0#23
    (fun n => ⟨2 * n, by omega, by simp⟩)

/-- A picture of 4 times 4 black pixels, one in a beat, to a sink that is always ready. -/
theorem small_picture_cut :
    ∃ n, ¬ WellFormed ⟨.one, 4#16, 4#16⟩ (fun _ => 0#16)
      (beats ⟨.one, 4#16, 4#16⟩ (fun _ => 0#16) 0#16 0#23 (fun _ => true) n) := by
  obtain ⟨n, k, hk, hsaid⟩ : ∃ n k, 21 ≤ k ∧
      beats ⟨.one, 4#16, 4#16⟩ (fun _ => 0#16) 0#16 0#23 (fun _ => true) n =
        said (next ⟨.one, 4#16, 4#16⟩) (say _ fun _ => 0#16) (.control 0) k :=
    exists_said 0#16 0#23 (fun n => ⟨n, Nat.le_refl n, rfl⟩) 21
  refine ⟨n, ?_⟩
  rw [hsaid]
  exact not_wellFormed_said (by decide) (by decide) hk

end Mfi.SplashScreen
