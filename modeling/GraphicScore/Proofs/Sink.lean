import Mathlib.Algebra.Order.Floor.Div
import GraphicScore.Frame
import GraphicScore.Sink

/-!
# Deliveries

How much of a text a sink has accepted, and after how many calls, when it has the whole text or gives up. A
sink without a limit takes a text in one call, and any other one takes it chunk by chunk.
-/

namespace GraphicScore

def Refusal.closed : Refusal := ⟨.brokenPipe, "closed", none⟩

namespace Sink

/-- How many calls take all of so many bytes, if none of them fails. -/
def callsFor (s : Sink) (size : Nat) : Nat := s.chunk.elim 1 fun chunk => size ⌈/⌉ chunk

/-- How many bytes so many calls have taken when there are still some left. -/
def takenBy (s : Sink) (calls : Nat) : Nat := s.chunk.elim 0 fun chunk => calls * chunk

/-- What becomes of bytes that are written to a sink. -/
structure Delivers (s : Sink) (bytes : List UInt8) (d : Delivery) : Prop where
  accepted : d.accepted <+: bytes
  complete : d.outcome = .ok () ↔ d.accepted = bytes
  whole : s.chunk ≠ some 0 → (∀ k, s.failAt = some k → s.callsFor bytes.length ≤ k) →
    d = ⟨s.callsFor bytes.length, bytes, .ok ()⟩
  broken : ∀ k, s.chunk ≠ some 0 → s.failAt = some k → k < s.callsFor bytes.length →
    d = ⟨k + 1, bytes.take (s.takenBy k), .error .closed⟩ ∧ d.accepted.length = s.takenBy k
  stuck : s.chunk = some 0 → s.failAt ≠ some 0 → d = ⟨1, [], .error .nothingTaken⟩
  stuckBroken : s.chunk = some 0 → s.failAt = some 0 → d = ⟨1, [], .error .closed⟩

section
variable {s : Sink} {call chunk k n : Nat} {bytes : List UInt8}

/-! ## one call -/

theorem write_of_failAt (h : s.failAt = some call) : s.write call bytes = .error .closed := if_pos h

theorem write_of_unlimited (h : s.failAt ≠ some call) (hc : s.chunk = none) :
    s.write call bytes = .ok bytes.length := by
  rw [write, if_neg h, hc]
  rfl

theorem write_of_chunk (h : s.failAt ≠ some call) (hc : s.chunk = some chunk) :
    s.write call bytes = .ok (min bytes.length chunk) := by
  rw [write, if_neg h, hc]
  rfl

theorem deliverFrom_nil : s.deliverFrom call [] = ⟨0, [], .ok ()⟩ := by
  rw [deliverFrom]
  rfl

theorem deliverFrom_of_refused (hne : bytes ≠ []) {refusal : Refusal} (h : s.write call bytes = .error refusal) :
    s.deliverFrom call bytes = ⟨1, [], .error refusal⟩ := by
  rw [deliverFrom, if_neg (by simpa using hne), h]

theorem deliverFrom_of_nothing (hne : bytes ≠ []) (h : s.write call bytes = .ok 0) :
    s.deliverFrom call bytes = ⟨1, [], .error .nothingTaken⟩ := by
  rw [deliverFrom, if_neg (by simpa using hne), h]

theorem deliverFrom_of_taken (hne : bytes ≠ []) (h : s.write call bytes = .ok n) (hn : 0 < n) :
    s.deliverFrom call bytes =
      let rest := s.deliverFrom (call + 1) (bytes.drop n)
      ⟨rest.calls + 1, bytes.take n ++ rest.accepted, rest.outcome⟩ := by
  obtain ⟨taken, rfl⟩ := Nat.exists_eq_succ_of_ne_zero hn.ne'
  rw [deliverFrom, if_neg (by simpa using hne), h]

theorem deliverFrom_of_chunk (hne : bytes ≠ []) (hc : s.chunk = some chunk) (hpos : 0 < chunk)
    (h : s.failAt ≠ some call) :
    s.deliverFrom call bytes =
      let rest := s.deliverFrom (call + 1) (bytes.drop chunk)
      ⟨rest.calls + 1, bytes.take chunk ++ rest.accepted, rest.outcome⟩ := by
  have htake : bytes.take (min bytes.length chunk) = bytes.take chunk := by
    rw [Nat.min_comm]
    exact List.take_eq_take_min.symm
  have hdrop : bytes.drop (min bytes.length chunk) = bytes.drop chunk := by
    rw [Nat.min_comm]
    exact List.drop_eq_drop_min.symm
  have hmin : 0 < min bytes.length chunk := Nat.lt_min.mpr ⟨List.length_pos_iff.mpr hne, hpos⟩
  rw [deliverFrom_of_taken hne (write_of_chunk h hc) hmin, htake, hdrop]

/-! ## all calls -/

theorem accepted_deliverFrom (s : Sink) (call : Nat) (bytes : List UInt8) :
    (s.deliverFrom call bytes).accepted <+: bytes ∧
      ((s.deliverFrom call bytes).outcome = .ok () ↔ (s.deliverFrom call bytes).accepted = bytes) := by
  fun_induction deliverFrom s call bytes with
  | case1 call bytes hempty => simp_all
  | case2 call bytes hne refusal _ =>
    have : [] ≠ bytes := fun hnil => hne (by rw [← hnil]; rfl)
    simpa using this
  | case3 call bytes hne _ =>
    have : [] ≠ bytes := fun hnil => hne (by rw [← hnil]; rfl)
    simpa using this
  | case4 call bytes hne taken _ rest ih =>
    obtain ⟨hfront, hcomplete⟩ := ih
    have hbytes := List.take_append_drop (taken + 1) bytes
    constructor
    · have := (List.prefix_append_right_inj (bytes.take (taken + 1))).mpr hfront
      rwa [hbytes] at this
    · rw [hcomplete, ← List.append_right_inj (bytes.take (taken + 1)), hbytes]

theorem deliverFrom_of_calls (hc : s.chunk = some chunk) (hpos : 0 < chunk)
    (hleft : ∀ i < n, i * chunk < bytes.length) (hfail : ∀ i < n, s.failAt ≠ some (call + i)) :
    s.deliverFrom call bytes =
      let rest := s.deliverFrom (call + n) (bytes.drop (n * chunk))
      ⟨rest.calls + n, bytes.take (n * chunk) ++ rest.accepted, rest.outcome⟩ := by
  induction n with
  | zero => simp
  | succ n ih =>
    have hne : bytes.drop (n * chunk) ≠ [] := by simpa using hleft n (Nat.lt_succ_self n)
    rw [ih (fun i hi => hleft i (Nat.lt_succ_of_lt hi)) (fun i hi => hfail i (Nat.lt_succ_of_lt hi)),
      deliverFrom_of_chunk hne hc hpos (hfail n (Nat.lt_succ_self n))]
    simp [Nat.succ_mul, List.take_add, Nat.add_assoc, Nat.add_comm 1]

theorem lt_callsFor (hc : s.chunk = some chunk) (hpos : 0 < chunk) :
    k < s.callsFor n ↔ k * chunk < n := by
  rw [callsFor, hc, Option.elim_some, ← Nat.not_le, ceilDiv_le_iff_le_mul hpos, Nat.mul_comm, Nat.not_le]

theorem deliverFrom_of_unlimited (hne : bytes ≠ []) (hc : s.chunk = none) (h : s.failAt ≠ some call) :
    s.deliverFrom call bytes = ⟨1, bytes, .ok ()⟩ := by
  rw [deliverFrom_of_taken hne (write_of_unlimited h hc) (List.length_pos_iff.mpr hne), List.drop_length,
    deliverFrom_nil]
  simp

theorem deliverFrom_of_enough (hne : bytes ≠ []) (hc : s.chunk ≠ some 0)
    (h : ∀ k, s.failAt = some k → s.callsFor bytes.length ≤ k) :
    s.deliverFrom 0 bytes = ⟨s.callsFor bytes.length, bytes, .ok ()⟩ := by
  have hfail : ∀ i < s.callsFor bytes.length, s.failAt ≠ some i := fun i hi hfail =>
    absurd (h i hfail) (Nat.not_le.mpr hi)
  cases hchunk : s.chunk with
  | none =>
    have hcalls : s.callsFor bytes.length = 1 := by rw [callsFor, hchunk, Option.elim_none]
    rw [hcalls] at hfail ⊢
    exact deliverFrom_of_unlimited hne hchunk (hfail 0 Nat.one_pos)
  | some chunk =>
    have hpos : 0 < chunk := Nat.pos_of_ne_zero fun hzero => hc (hzero ▸ hchunk)
    have hall : bytes.length ≤ s.callsFor bytes.length * chunk :=
      Nat.not_lt.mp fun hlt => Nat.lt_irrefl _ ((lt_callsFor hchunk hpos).mpr hlt)
    rw [deliverFrom_of_calls (n := s.callsFor bytes.length) hchunk hpos
      (fun i hi => (lt_callsFor hchunk hpos).mp hi) (fun i hi => by simpa using hfail i hi),
      List.drop_eq_nil_of_le hall, List.take_of_length_le hall, deliverFrom_nil]
    simp

theorem deliverFrom_of_broken (hne : bytes ≠ []) (hc : s.chunk ≠ some 0) (h : s.failAt = some k)
    (hk : k < s.callsFor bytes.length) :
    s.deliverFrom 0 bytes = ⟨k + 1, bytes.take (s.takenBy k), .error .closed⟩ ∧
      (bytes.take (s.takenBy k)).length = s.takenBy k := by
  cases hchunk : s.chunk with
  | none =>
    obtain rfl : k = 0 := by
      rw [callsFor, hchunk] at hk
      exact Nat.lt_one_iff.mp hk
    rw [takenBy, hchunk, deliverFrom_of_refused hne (write_of_failAt h)]
    exact ⟨rfl, rfl⟩
  | some chunk =>
    have hpos : 0 < chunk := Nat.pos_of_ne_zero fun hzero => hc (hzero ▸ hchunk)
    have hlt : k * chunk < bytes.length := (lt_callsFor hchunk hpos).mp hk
    have htaken : s.takenBy k = k * chunk := by rw [takenBy, hchunk, Option.elim_some]
    have hleft : ∀ i < k, i * chunk < bytes.length := fun i hi =>
      (lt_callsFor hchunk hpos).mp (Nat.lt_trans hi hk)
    have hearlier : ∀ i < k, s.failAt ≠ some (0 + i) := by
      intro i hi hfail
      rw [h, Nat.zero_add] at hfail
      exact absurd (Option.some.inj hfail) hi.ne'
    have hrest : bytes.drop (k * chunk) ≠ [] := by simpa using hlt
    rw [deliverFrom_of_calls hchunk hpos hleft hearlier,
      deliverFrom_of_refused hrest (write_of_failAt (by rw [h, Nat.zero_add])), htaken]
    refine ⟨by simp [Nat.add_comm], ?_⟩
    rw [List.length_take, Nat.min_eq_left hlt.le]

theorem delivers (s : Sink) (hne : bytes ≠ []) : s.Delivers bytes (s.deliverFrom 0 bytes) where
  accepted := (accepted_deliverFrom s 0 bytes).1
  complete := (accepted_deliverFrom s 0 bytes).2
  whole hc h := deliverFrom_of_enough hne hc h
  broken k hc h hk := by
    obtain ⟨hdelivery, hlength⟩ := deliverFrom_of_broken hne hc h hk
    exact ⟨hdelivery, by rwa [hdelivery]⟩
  stuck hc h := deliverFrom_of_nothing hne (by rw [write_of_chunk h hc, Nat.min_zero])
  stuckBroken _ h := deliverFrom_of_refused hne (write_of_failAt h)

end

end Sink

/-! ## documents -/

theorem length_toList (bytes : ByteArray) : bytes.toList.length = bytes.size := by
  have hloop (i : Nat) (taken : List UInt8) :
      (ByteArray.toList.loop bytes i taken).length = taken.length + (bytes.size - i) := by
    fun_induction ByteArray.toList.loop bytes i taken with
    | case1 i taken hlt ih =>
      rw [ih, List.length_cons]
      omega
    | case2 i taken hge =>
      rw [List.length_reverse]
      omega
  exact (hloop 0 []).trans (Nat.zero_add _)

theorem toUTF8_ne_nil {text : String} (h : text ≠ "") : text.toUTF8.toList ≠ [] := by
  intro hnil
  have hsize : text.utf8ByteSize = 0 := by
    have := length_toList text.toUTF8
    rw [hnil] at this
    simpa using this.symm
  exact h (String.utf8ByteSize_eq_zero_iff.mp hsize)

theorem header_ne_empty (d : Definitions) (f : Frame) : d.header f ≠ "" := by
  simp [Definitions.header, Frame.declaration]

theorem trailer_ne_empty (d : Definitions) : d.trailer ≠ "" := by
  simp [Definitions.trailer]

/-- A sink gets as much of a document's beginning, and of its end, as it accepts until it fails. -/
theorem delivers_document (d : Definitions) (f : Frame) (s : Sink) :
    s.Delivers (d.header f).toUTF8.toList (s.deliver (d.header f)) ∧
      s.Delivers d.trailer.toUTF8.toList (s.deliver d.trailer) :=
  ⟨s.delivers (toUTF8_ne_nil (header_ne_empty d f)), s.delivers (toUTF8_ne_nil (trailer_ne_empty d))⟩

end GraphicScore
