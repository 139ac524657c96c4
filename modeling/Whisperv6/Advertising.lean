import Whisperv6.Dispatch
import Whisperv6.Handshake
import Whisperv6.Tolerance

/-! The proof of work that a node advertises.  The setter refuses negative values and `New` refuses
none; a peer ends the connection also on infinities and on values that are not numbers, when a
notification or a status brings them. -/

namespace Whisperv6

open ProofKit

section Loops

variable {C : Crypto} {w : Whisper} {l : Loop} {v : Float64}

/-- The message loop on the notification of a value, once the packet has passed the check on its
size. -/
theorem Loop.read_pow (hsize : w.checkPacketSize (Change.pow v).packet = none) :
    l.read C w (Change.pow v).packet =
      match l.peer.receivePow (Change.pow v).packet with
      | .error err => l.leave (.error err)
      | .ok p => { l with peer := p, jobs := [], trouble := false, envelopeErrors := [] } := by
  have hcode : (Change.pow v).packet.code = powRequirementCode := rfl
  have happly : (Change.pow v).packet.applyTo l.peer =
      l.peer.receivePow (Change.pow v).packet := if_pos hcode
  have hjobs : ∀ p, (Change.pow v).packet.jobs C w p = .ok [] := by
    intro p
    rw [Packet.jobs, hcode]
    rfl
  rw [Loop.read, hsize, happly]
  cases l.peer.receivePow (Change.pow v).packet with
  | error err => rfl
  | ok p => simp only [hjobs]

end Loops

/-! ### What the receiving node does -/

/-- The message loops of all nodes go on after the notification of `v`, if their limit lets a packet
of its size in, and hold `v` for the node that has sent it. -/
def NotificationAccepted (C : Crypto) (v : Float64) : Prop :=
  ∀ (w : Whisper) (l : Loop), l.returned = none →
    w.checkPacketSize (Change.pow v).packet = none →
    (l.read C w (Change.pow v).packet).returned = none ∧
      (l.read C w (Change.pow v).packet).peer.powRequirement = v

/-- The handshakes of all nodes succeed with the status of a node that advertises `v`, unless they
are between light clients, and leave `v` in the record of the peer. -/
def StatusAccepted (v : Float64) : Prop :=
  ∀ A : Whisper, A.ValidBloom → A.settings.getMinPow = v →
    ∀ (settings : Settings) (p : Peer), Peer.Unrestricted settings A.settings.lightClientMode →
      ∃ p', p.handshake settings A.statusPacket none = .ok p' ∧ p'.powRequirement = v

theorem notificationAccepted_iff (C : Crypto) (v : Float64) :
    NotificationAccepted C v ↔ invalidPow v = false := by
  constructor
  · intro h
    by_contra hinvalid
    rw [Bool.not_eq_false] at hinvalid
    let w : Whisper := new { maxMessageSize := (Change.pow v).packet.size }
    let l : Loop := { peer := newPeer 0 }
    have hsize : w.checkPacketSize (Change.pow v).packet = none :=
      if_neg (UInt32.lt_irrefl _)
    have hreturned := (h w l rfl hsize).1
    rw [Loop.read_pow hsize, Peer.receivePow_invalid l.peer hinvalid] at hreturned
    cases hreturned
  · intro hvalid w l hreturned hsize
    rw [Loop.read_pow hsize, Peer.receivePow_packet l.peer hvalid]
    exact ⟨hreturned, rfl⟩

/-- A status with an invalid value is refused before its other options are read. -/
theorem Whisper.handshake_invalid {A : Whisper} (hbloom : A.ValidBloom)
    (hpow : invalidPow A.settings.getMinPow = true) (settings : Settings) (p p' : Peer) :
    p.handshake settings A.statusPacket none ≠ .ok p' := by
  obtain ⟨s, t, hreads, -, hoptions⟩ := handshake_options hbloom (k := 5) (by decide)
  obtain ⟨u, hvalue, -⟩ := Rlp.Stream.reads_append.mp hreads
  rw [← truncatedStatus_five, hoptions, Peer.receiveOptions,
    Peer.receiveRequirements_invalid hpow hvalue]
  intro h
  cases h

theorem statusAccepted_iff (v : Float64) : StatusAccepted v ↔ invalidPow v = false := by
  constructor
  · intro h
    by_contra hinvalid
    rw [Bool.not_eq_false] at hinvalid
    let A : Whisper := new { minimumAcceptedPOW := v }
    have hbloom : A.ValidBloom := nofun
    obtain ⟨p', hp', -⟩ := h A hbloom rfl (new {}).settings (newPeer 0)
      (show Peer.Unrestricted (new {}).settings false by decide)
    exact Whisper.handshake_invalid hbloom hinvalid _ _ p' hp'
  · rintro hvalid A hbloom rfl settings p hlight
    refine ⟨A.told 5 p, ?_, rfl⟩
    rw [← Whisper.truncatedStatus_five]
    exact Whisper.handshake_told ⟨hvalid, hbloom⟩ (by decide) (fun _ => hlight) p

/-! ### What a node advertises -/

/-- The check of the setter is one of the three of the receiver. -/
theorem invalidPow_of_set {v : Float64} (h : checkMinimumPoW v = none) :
    invalidPow v = false ↔ v.isInf = false ∧ v.isNaN = false := by
  have hlt : v.value.lt .zero = false := by
    by_contra hlt
    rw [Bool.not_eq_false] at hlt
    rw [checkMinimumPoW, if_pos hlt] at h
    cases h
  simp [invalidPow, hlt]

theorem Tuning.setMinimumPoW_ok {s : Tuning} {v : Float64} :
    (s.setMinimumPoW v).2 = none ↔ checkMinimumPoW v = none := by
  unfold setMinimumPoW
  split <;> simp_all

/-- The values that the setter takes are accepted by all peers except the infinity and the values
that are not numbers; of those that `New` takes, which are all, the peers refuse the negative ones
too. -/
theorem advertised_accepted_iff (C : Crypto) (v : Float64) :
    (∀ s : Tuning, (s.setMinimumPoW v).2 = none →
      (s.setMinimumPoW v).1.settings.getMinPow = v ∧
      (NotificationAccepted C v ∧ StatusAccepted v ↔ v.isInf = false ∧ v.isNaN = false)) ∧
    ∀ cfg : Config, cfg.minimumAcceptedPOW = v →
      (new cfg).settings.getMinPow = v ∧
      (NotificationAccepted C v ∧ StatusAccepted v ↔
        v.isInf = false ∧ v.isNaN = false ∧ v.value.lt .zero = false) := by
  rw [notificationAccepted_iff, statusAccepted_iff, and_self]
  constructor
  · intro s hset
    have hcheck := Tuning.setMinimumPoW_ok.mp hset
    refine ⟨?_, invalidPow_of_set hcheck⟩
    simp only [Tuning.setMinimumPoW, hcheck]
    rfl
  · rintro cfg rfl
    refine ⟨rfl, ?_⟩
    simp [invalidPow, and_assoc]

/-- Plus infinity, a value that is not a number, and `-1`. -/
def plusInfinity : Float64 := 0x7FF0000000000000#64
def notANumber : Float64 := 0x7FF8000000000001#64
def minusOne : Float64 := 0xBFF0000000000000#64

/-- The setter takes the first two and `New` takes the third; the peers refuse the notification and
the status of each. -/
theorem not_advertised_accepted :
    (checkMinimumPoW plusInfinity = none ∧
      ¬ NotificationAccepted sampleCrypto plusInfinity ∧ ¬ StatusAccepted plusInfinity) ∧
    (checkMinimumPoW notANumber = none ∧
      ¬ NotificationAccepted sampleCrypto notANumber ∧ ¬ StatusAccepted notANumber) ∧
    (new { minimumAcceptedPOW := minusOne }).settings.getMinPow = minusOne ∧
      ¬ NotificationAccepted sampleCrypto minusOne ∧ ¬ StatusAccepted minusOne := by
  have hinf : invalidPow plusInfinity = true := by decide +kernel
  have hnan : invalidPow notANumber = true := by decide +kernel
  have hneg : invalidPow minusOne = true := by decide +kernel
  simp only [notificationAccepted_iff, statusAccepted_iff, hinf, hnan, hneg]
  exact ⟨by decide +kernel, by decide +kernel, rfl, by decide⟩

theorem advertised_accepted_iff_half :
    (new { minimumAcceptedPOW := 0x3FE0000000000000#64 }).settings.getMinPow =
        0x3FE0000000000000#64 ∧
      NotificationAccepted sampleCrypto 0x3FE0000000000000#64 ∧
      StatusAccepted 0x3FE0000000000000#64 := by
  obtain ⟨hvalue, haccepted⟩ := (advertised_accepted_iff sampleCrypto 0x3FE0000000000000#64).2
    { minimumAcceptedPOW := 0x3FE0000000000000#64 } rfl
  exact ⟨hvalue, haccepted.mpr (by decide +kernel)⟩

end Whisperv6
