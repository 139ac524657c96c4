import Mathlib.Data.Fintype.EquivFin
import Mathlib.Data.Rat.Floor
import Whisperv6.KeyStore
import Whisperv6.MailServer
import Whisperv6.ProofKit.TokenBucket

/-! The rate limiter.  There is one limit for addresses and one for peers, and each is a gate of its
own, but both gates are switched off by the limit for addresses.  A bucket is filled ten times a
second by a tenth of the limit, rounded to the nearest integer, so the rate that a saturating load
gets is a multiple of ten packets a second. -/

namespace Whisperv6

open ProofKit

/-! ### The limiter -/

structure PeerRateLimiterConfig where
  limitPerSecIP : ℤ := 0
  limitPerSecPeerID : ℤ := 0
  whitelistedIPs : List String := []
  whitelistedPeerIDs : List NodeID := []

def peerRateLimiterDefaults : PeerRateLimiterConfig where
  limitPerSecIP := 10
  limitPerSecPeerID := 5

structure PeerRateLimiter where
  peerIDThrottler : Throttler
  ipThrottler : Throttler
  limitPerSecIP : ℤ
  limitPerSecPeerID : ℤ
  whitelistedPeerIDs : List NodeID
  whitelistedIPs : List String

/-- `int64(math.Floor(.5 + float64(capacity) * freq.Seconds()))` without rounding of the factors. -/
def exactPerTick (freq : ℚ) (capacity : ℤ) : ℤ := ⌊(1 / 2 : ℚ) + capacity * freq⌋

/-- The limiter of a configuration; `perTick` is what the floating-point operations make of
`exactPerTick`. -/
def newPeerRateLimiter (perTick : ℚ → ℤ → ℤ) (cfg : Option PeerRateLimiterConfig) :
    PeerRateLimiter :=
  let cfg := cfg.getD peerRateLimiterDefaults
  { peerIDThrottler := { perTick := perTick (1 / 10) }
    ipThrottler := { perTick := perTick (1 / 10) }
    limitPerSecIP := cfg.limitPerSecIP
    limitPerSecPeerID := cfg.limitPerSecPeerID
    whitelistedPeerIDs := cfg.whitelistedPeerIDs
    whitelistedIPs := cfg.whitelistedIPs }

def stringSliceContains (s : List String) (searched : String) : Bool :=
  s.any fun item => item == searched

def enodeIDSliceContains (s : List NodeID) (searched : NodeID) : Bool :=
  s.any fun item => Hash.bytes item == Hash.bytes searched

/-- `copy(id[:], peerID)` for a new `id`. -/
def copyID (peerID : Bytes) : NodeID :=
  bytesToHash (peerID.take hashLength ++ (List.replicate hashLength 0).drop peerID.length)

/-- `ID.String()`. -/
def idString (id : NodeID) : String := hex (Hash.bytes id)

namespace PeerRateLimiter

def throttleIP (r : PeerRateLimiter) (ip : String) : PeerRateLimiter × Bool :=
  if r.limitPerSecIP = 0 then (r, false)
  else if stringSliceContains r.whitelistedIPs ip then (r, false)
  else
    let (th, halted) := r.ipThrottler.halt ip 1 r.limitPerSecIP
    ({ r with ipThrottler := th }, halted)

def throttlePeer (r : PeerRateLimiter) (peerID : Bytes) : PeerRateLimiter × Bool :=
  -- the source tests the limit for addresses here too
  if r.limitPerSecIP = 0 then (r, false)
  else
    let id := copyID peerID
    if enodeIDSliceContains r.whitelistedPeerIDs id then (r, false)
    else
      let (th, halted) := r.peerIDThrottler.halt (idString id) 1 r.limitPerSecPeerID
      ({ r with peerIDThrottler := th }, halted)

end PeerRateLimiter

/-- A packet at one of the limits, or a tick of its throttler. -/
inductive LimiterCall
  | ip (d : Demand String)
  | peer (d : Demand Bytes)

inductive LimiterVerdict
  | ip (ip : String) (halted : Bool)
  | peer (id : NodeID) (halted : Bool)

namespace PeerRateLimiter

def step (r : PeerRateLimiter) : LimiterCall → PeerRateLimiter × Option LimiterVerdict
  | .ip (.packet ip) => ((r.throttleIP ip).1, some (.ip ip (r.throttleIP ip).2))
  | .ip .tick => ({ r with ipThrottler := r.ipThrottler.fill }, none)
  | .peer (.packet peerID) =>
    ((r.throttlePeer peerID).1, some (.peer (copyID peerID) (r.throttlePeer peerID).2))
  | .peer .tick => ({ r with peerIDThrottler := r.peerIDThrottler.fill }, none)

end PeerRateLimiter

def LimiterVerdict.ip? : LimiterVerdict → Option (String × Bool)
  | .ip key halted => some (key, halted)
  | .peer _ _ => none

def LimiterVerdict.peer? : LimiterVerdict → Option (NodeID × Bool)
  | .ip _ _ => none
  | .peer id halted => some (id, halted)

namespace PeerRateLimiter

/-- The verdicts of `throttleIP`. -/
def ipLog (r : PeerRateLimiter) (calls : List LimiterCall) : List (String × Bool) :=
  (Mealy.outputs step r calls).filterMap LimiterVerdict.ip?

/-- The verdicts of `throttlePeer`. -/
def peerLog (r : PeerRateLimiter) (calls : List LimiterCall) : List (NodeID × Bool) :=
  (Mealy.outputs step r calls).filterMap LimiterVerdict.peer?

end PeerRateLimiter

/-! ### The two gates -/

def LimiterCall.ipDemand : LimiterCall → Option (Demand String)
  | .ip d => some d
  | .peer _ => none

def LimiterCall.peerDemand : LimiterCall → Option (Demand NodeID)
  | .ip _ => none
  | .peer (.packet peerID) => some (.packet (copyID peerID))
  | .peer .tick => some .tick

namespace PeerRateLimiterConfig

def ipGate (cfg : PeerRateLimiterConfig) : Gate String where
  off := decide (cfg.limitPerSecIP = 0)
  rate := cfg.limitPerSecIP
  exempt := cfg.whitelistedIPs
  name := id

/-- The gate for peers is off when there is no limit for addresses. -/
def peerGate (cfg : PeerRateLimiterConfig) : Gate NodeID where
  off := decide (cfg.limitPerSecIP = 0)
  rate := cfg.limitPerSecPeerID
  exempt := cfg.whitelistedPeerIDs
  name := idString

/-- The fields of the limiter that come from the configuration. -/
structure Configures (cfg : PeerRateLimiterConfig) (r : PeerRateLimiter) : Prop where
  limitPerSecIP : r.limitPerSecIP = cfg.limitPerSecIP
  limitPerSecPeerID : r.limitPerSecPeerID = cfg.limitPerSecPeerID
  whitelistedPeerIDs : r.whitelistedPeerIDs = cfg.whitelistedPeerIDs
  whitelistedIPs : r.whitelistedIPs = cfg.whitelistedIPs

end PeerRateLimiterConfig

theorem hashBytes_injective : Function.Injective Hash.bytes := by
  intro h h' heq
  rw [← bytesToHash_bytes h, heq, bytesToHash_bytes]

theorem idString_injective : Function.Injective idString := by
  intro id id' heq
  exact hashBytes_injective (goString_hex_injective (congrArg goString heq))

theorem copyID_bytes (id : NodeID) : copyID (Hash.bytes id) = id := by
  have hlen : (Hash.bytes id).length = hashLength := Hash.length_bytes id
  rw [copyID, ← hlen, List.take_length, List.drop_of_length_le (by simp), List.append_nil]
  exact bytesToHash_bytes id

theorem stringSliceContains_iff {s : List String} {searched : String} :
    stringSliceContains s searched = true ↔ searched ∈ s := by
  simp [stringSliceContains]

theorem enodeIDSliceContains_iff {s : List NodeID} {searched : NodeID} :
    enodeIDSliceContains s searched = true ↔ searched ∈ s := by
  simp [enodeIDSliceContains, hashBytes_injective.eq_iff]

namespace PeerRateLimiter

variable {cfg : PeerRateLimiterConfig} {r : PeerRateLimiter}

theorem throttleIP_eq (h : cfg.Configures r) (ip : String) :
    ((r.throttleIP ip).1.ipThrottler, some (ip, (r.throttleIP ip).2)) =
        cfg.ipGate.step r.ipThrottler (.packet ip) ∧
      (r.throttleIP ip).1 = { r with ipThrottler := (r.throttleIP ip).1.ipThrottler } := by
  have hgate : cfg.ipGate.step r.ipThrottler (.packet ip) =
      if r.limitPerSecIP = 0 ∨ ip ∈ r.whitelistedIPs then (r.ipThrottler, some (ip, false))
      else ((r.ipThrottler.halt ip 1 r.limitPerSecIP).1,
        some (ip, (r.ipThrottler.halt ip 1 r.limitPerSecIP).2)) := by
    rw [Gate.step, h.limitPerSecIP, h.whitelistedIPs]
    simp [PeerRateLimiterConfig.ipGate]
  rw [hgate]
  unfold throttleIP
  by_cases hoff : r.limitPerSecIP = 0
  · rw [if_pos hoff, if_pos (.inl hoff)]
    exact ⟨rfl, rfl⟩
  · rw [if_neg hoff]
    by_cases hlisted : ip ∈ r.whitelistedIPs
    · rw [if_pos (stringSliceContains_iff.mpr hlisted), if_pos (.inr hlisted)]
      exact ⟨rfl, rfl⟩
    · rw [if_neg (mt stringSliceContains_iff.mp hlisted), if_neg (by simp [hoff, hlisted])]
      exact ⟨rfl, rfl⟩

theorem throttlePeer_eq (h : cfg.Configures r) (peerID : Bytes) :
    ((r.throttlePeer peerID).1.peerIDThrottler,
        some (copyID peerID, (r.throttlePeer peerID).2)) =
        cfg.peerGate.step r.peerIDThrottler (.packet (copyID peerID)) ∧
      (r.throttlePeer peerID).1 =
        { r with peerIDThrottler := (r.throttlePeer peerID).1.peerIDThrottler } := by
  generalize hid : copyID peerID = id
  have hgate : cfg.peerGate.step r.peerIDThrottler (.packet id) =
      if r.limitPerSecIP = 0 ∨ id ∈ r.whitelistedPeerIDs then (r.peerIDThrottler, some (id, false))
      else ((r.peerIDThrottler.halt (idString id) 1 r.limitPerSecPeerID).1,
        some (id, (r.peerIDThrottler.halt (idString id) 1 r.limitPerSecPeerID).2)) := by
    rw [Gate.step, h.limitPerSecIP, h.limitPerSecPeerID, h.whitelistedPeerIDs]
    simp [PeerRateLimiterConfig.peerGate]
  rw [hgate]
  unfold throttlePeer
  rw [hid]
  by_cases hoff : r.limitPerSecIP = 0
  · rw [if_pos hoff, if_pos (.inl hoff)]
    exact ⟨rfl, rfl⟩
  · rw [if_neg hoff]
    dsimp only
    by_cases hlisted : id ∈ r.whitelistedPeerIDs
    · rw [if_pos (enodeIDSliceContains_iff.mpr hlisted), if_pos (.inr hlisted)]
      exact ⟨rfl, rfl⟩
    · rw [if_neg (mt enodeIDSliceContains_iff.mp hlisted), if_neg (by simp [hoff, hlisted])]
      exact ⟨rfl, rfl⟩

theorem configures_step (h : cfg.Configures r) (call : LimiterCall) :
    cfg.Configures (r.step call).1 := by
  obtain ⟨hIP, hPeer, hPeers, hIPs⟩ := h
  cases call with
  | ip d =>
    cases d with
    | packet ip =>
      rw [step, (throttleIP_eq ⟨hIP, hPeer, hPeers, hIPs⟩ ip).2]
      exact ⟨hIP, hPeer, hPeers, hIPs⟩
    | tick => exact ⟨hIP, hPeer, hPeers, hIPs⟩
  | peer d =>
    cases d with
    | packet peerID =>
      rw [step, (throttlePeer_eq ⟨hIP, hPeer, hPeers, hIPs⟩ peerID).2]
      exact ⟨hIP, hPeer, hPeers, hIPs⟩
    | tick => exact ⟨hIP, hPeer, hPeers, hIPs⟩

theorem projects_ip (cfg : PeerRateLimiterConfig) :
    Mealy.Projects step cfg.ipGate.step cfg.Configures ipThrottler LimiterCall.ipDemand
      LimiterVerdict.ip? := by
  refine ⟨fun r call h => configures_step h call, ?_, ?_⟩
  · intro r call h hcall
    cases call with
    | ip d => cases hcall
    | peer d =>
      cases d with
      | packet peerID =>
        have hframe := congrArg ipThrottler (throttlePeer_eq h peerID).2
        exact ⟨hframe, rfl⟩
      | tick => exact ⟨rfl, rfl⟩
  · intro r call d h hcall
    cases call with
    | peer d => cases hcall
    | ip d =>
      cases hcall
      cases d with
      | packet ip =>
        rw [← (throttleIP_eq h ip).1]
        exact ⟨rfl, rfl⟩
      | tick => exact ⟨rfl, rfl⟩

theorem projects_peer (cfg : PeerRateLimiterConfig) :
    Mealy.Projects step cfg.peerGate.step cfg.Configures peerIDThrottler LimiterCall.peerDemand
      LimiterVerdict.peer? := by
  refine ⟨fun r call h => configures_step h call, ?_, ?_⟩
  · intro r call h hcall
    cases call with
    | ip d =>
      cases d with
      | packet ip =>
        have hframe := congrArg peerIDThrottler (throttleIP_eq h ip).2
        exact ⟨hframe, rfl⟩
      | tick => exact ⟨rfl, rfl⟩
    | peer d => cases d <;> cases hcall
  · intro r call d h hcall
    cases call with
    | ip d => cases hcall
    | peer d' =>
      cases d' with
      | packet peerID =>
        cases hcall
        rw [← (throttlePeer_eq h peerID).1]
        exact ⟨rfl, rfl⟩
      | tick =>
        cases hcall
        exact ⟨rfl, rfl⟩

end PeerRateLimiter

theorem newPeerRateLimiter_configures (perTick : ℚ → ℤ → ℤ) (cfg : PeerRateLimiterConfig) :
    cfg.Configures (newPeerRateLimiter perTick (some cfg)) := ⟨rfl, rfl, rfl, rfl⟩

section Logs

variable (perTick : ℚ → ℤ → ℤ) (cfg : PeerRateLimiterConfig)

theorem ipLog_eq (calls : List LimiterCall) :
    (newPeerRateLimiter perTick (some cfg)).ipLog calls =
      cfg.ipGate.log (perTick (1 / 10)) (calls.filterMap LimiterCall.ipDemand) :=
  (PeerRateLimiter.projects_ip cfg).outputs (newPeerRateLimiter_configures perTick cfg) calls

theorem peerLog_eq (calls : List LimiterCall) :
    (newPeerRateLimiter perTick (some cfg)).peerLog calls =
      cfg.peerGate.log (perTick (1 / 10)) (calls.filterMap LimiterCall.peerDemand) :=
  (PeerRateLimiter.projects_peer cfg).outputs (newPeerRateLimiter_configures perTick cfg) calls

end Logs

/-- A call for a demand on the limit for peers. -/
def peerCall : Demand NodeID → LimiterCall
  | .packet id => .peer (.packet (Hash.bytes id))
  | .tick => .peer .tick

theorem peerDemand_peerCall (d : Demand NodeID) : (peerCall d).peerDemand = some d := by
  cases d with
  | packet id => rw [peerCall, LimiterCall.peerDemand, copyID_bytes]
  | tick => rfl

theorem filterMap_peerCall (ds : List (Demand NodeID)) :
    (ds.map peerCall).filterMap LimiterCall.peerDemand = ds := by
  rw [List.filterMap_map]
  exact (List.filterMap_congr fun d _ => peerDemand_peerCall d).trans List.filterMap_some

theorem peerDemand_surjective : Function.Surjective (List.filterMap LimiterCall.peerDemand) :=
  fun ds => ⟨ds.map peerCall, filterMap_peerCall ds⟩

theorem filterMap_ipCall (ds : List (Demand String)) :
    (ds.map LimiterCall.ip).filterMap LimiterCall.ipDemand = ds := by
  rw [List.filterMap_map]
  exact List.filterMap_some

theorem ipDemand_surjective : Function.Surjective (List.filterMap LimiterCall.ipDemand) :=
  fun ds => ⟨ds.map .ip, filterMap_ipCall ds⟩

/-! ### Independence -/

namespace PeerRateLimiterConfig

variable (perTick : ℚ → ℤ → ℤ) (cfg : PeerRateLimiterConfig)

/-- `throttleIP` never flags a packet. -/
def IPUnlimited : Prop :=
  ∀ calls, ∀ e ∈ (newPeerRateLimiter perTick (some cfg)).ipLog calls, e.2 = false

/-- `throttlePeer` never flags a packet. -/
def PeersUnlimited : Prop :=
  ∀ calls, ∀ e ∈ (newPeerRateLimiter perTick (some cfg)).peerLog calls, e.2 = false

theorem ipUnlimited_iff : cfg.IPUnlimited perTick ↔ cfg.limitPerSecIP = 0 := by
  have hgate : cfg.IPUnlimited perTick ↔
      ∀ ds, ∀ e ∈ cfg.ipGate.log (perTick (1 / 10)) ds, e.2 = false := by
    simp only [IPUnlimited, ipLog_eq]
    exact (ipDemand_surjective.forall
      (p := fun ds => ∀ e ∈ cfg.ipGate.log (perTick (1 / 10)) ds, e.2 = false)).symm
  -- some address is not whitelisted
  obtain ⟨ip, hip⟩ := Infinite.exists_notMem_finset cfg.whitelistedIPs.toFinset
  have hlimited : ip ∉ cfg.ipGate.exempt := mt List.mem_toFinset.mpr hip
  rw [hgate, Gate.never_refuses_iff Function.injective_id]
  constructor
  · intro hopen
    exact of_decide_eq_true ((hopen ip).resolve_right hlimited)
  · exact fun hzero _ => .inl (decide_eq_true hzero)

theorem peersUnlimited_iff :
    cfg.PeersUnlimited perTick ↔
      cfg.limitPerSecIP = 0 ∨ ∀ id, id ∈ cfg.whitelistedPeerIDs := by
  have hgate : cfg.PeersUnlimited perTick ↔
      ∀ ds, ∀ e ∈ cfg.peerGate.log (perTick (1 / 10)) ds, e.2 = false := by
    simp only [PeersUnlimited, peerLog_eq]
    exact (peerDemand_surjective.forall
      (p := fun ds => ∀ e ∈ cfg.peerGate.log (perTick (1 / 10)) ds, e.2 = false)).symm
  rw [hgate, Gate.never_refuses_iff idString_injective, ← forall_or_left]
  simp [peerGate]

/-- The limits for addresses are the same. -/
def SameIPLimit (cfg cfg' : PeerRateLimiterConfig) : Prop :=
  cfg.limitPerSecIP = cfg'.limitPerSecIP ∧ cfg.whitelistedIPs = cfg'.whitelistedIPs

/-- The limits for peers are the same. -/
def SamePeerLimit (cfg cfg' : PeerRateLimiterConfig) : Prop :=
  cfg.limitPerSecPeerID = cfg'.limitPerSecPeerID ∧
    cfg.whitelistedPeerIDs = cfg'.whitelistedPeerIDs

variable {cfg} {cfg' : PeerRateLimiterConfig}

theorem SameIPLimit.ipLog_eq (h : cfg.SameIPLimit cfg') (calls : List LimiterCall) :
    (newPeerRateLimiter perTick (some cfg)).ipLog calls =
      (newPeerRateLimiter perTick (some cfg')).ipLog calls := by
  have hgate : cfg.ipGate = cfg'.ipGate := by
    rw [ipGate, ipGate, h.1, h.2]
  rw [Whisperv6.ipLog_eq, Whisperv6.ipLog_eq, hgate]

theorem SamePeerLimit.peerLog_eq_iff (h : cfg.SamePeerLimit cfg') :
    (∀ calls, (newPeerRateLimiter perTick (some cfg)).peerLog calls =
      (newPeerRateLimiter perTick (some cfg')).peerLog calls) ↔
      (cfg.limitPerSecIP = 0 ↔ cfg'.limitPerSecIP = 0) ∨ ∀ id, id ∈ cfg.whitelistedPeerIDs := by
  have hgate : cfg'.peerGate = { cfg.peerGate with off := cfg'.peerGate.off } := by
    simp [peerGate, h.1, h.2]
  have hlogs : (∀ calls, (newPeerRateLimiter perTick (some cfg)).peerLog calls =
      (newPeerRateLimiter perTick (some cfg')).peerLog calls) ↔
      ∀ ds, cfg.peerGate.log (perTick (1 / 10)) ds = cfg'.peerGate.log (perTick (1 / 10)) ds := by
    simp only [peerLog_eq]
    exact (peerDemand_surjective.forall (p := fun ds => cfg.peerGate.log (perTick (1 / 10)) ds =
      cfg'.peerGate.log (perTick (1 / 10)) ds)).symm
  rw [hlogs, hgate, Gate.log_eq_iff idString_injective]
  simp [peerGate]

end PeerRateLimiterConfig

/-- `throttleIP` depends on its own limit only and is disabled exactly by the limit 0.  The verdicts
of `throttlePeer` do not change with the limit for addresses exactly when that limit is zero in both
configurations or in none, or all peers are whitelisted; and it is disabled exactly when the limit
for addresses is 0, or all peers are whitelisted, whatever its own limit is. -/
theorem limits_independent_iff (perTick : ℚ → ℤ → ℤ) (cfg cfg' : PeerRateLimiterConfig) :
    (cfg.SameIPLimit cfg' → ∀ calls, (newPeerRateLimiter perTick (some cfg)).ipLog calls =
      (newPeerRateLimiter perTick (some cfg')).ipLog calls) ∧
    (cfg.IPUnlimited perTick ↔ cfg.limitPerSecIP = 0) ∧
    (cfg.SamePeerLimit cfg' →
      ((∀ calls, (newPeerRateLimiter perTick (some cfg)).peerLog calls =
          (newPeerRateLimiter perTick (some cfg')).peerLog calls) ↔
        (cfg.limitPerSecIP = 0 ↔ cfg'.limitPerSecIP = 0) ∨
          ∀ id, id ∈ cfg.whitelistedPeerIDs)) ∧
    (cfg.PeersUnlimited perTick ↔
      cfg.limitPerSecIP = 0 ∨ ∀ id, id ∈ cfg.whitelistedPeerIDs) :=
  ⟨fun hsame => hsame.ipLog_eq perTick, cfg.ipUnlimited_iff perTick,
    fun hsame => hsame.peerLog_eq_iff perTick, cfg.peersUnlimited_iff perTick⟩

theorem limits_independent_iff_defaults :
    let cfg := { peerRateLimiterDefaults with limitPerSecIP := 3 }
    peerRateLimiterDefaults.SamePeerLimit cfg ∧
    ∀ calls, (newPeerRateLimiter exactPerTick (some peerRateLimiterDefaults)).peerLog calls =
      (newPeerRateLimiter exactPerTick (some cfg)).peerLog calls := by
  intro cfg
  have hsame : peerRateLimiterDefaults.SamePeerLimit cfg := ⟨rfl, rfl⟩
  obtain ⟨-, -, hpeers, -⟩ := limits_independent_iff exactPerTick peerRateLimiterDefaults cfg
  exact ⟨hsame, (hpeers hsame).mpr (.inl (by decide))⟩

/-- One packet a second for a peer, with and without a limit for addresses: in the second case the
second packet is not flagged.  And no limit for peers with a limit for addresses: the first packet
of a peer is flagged. -/
theorem not_limits_independent :
    let packet := LimiterCall.peer (.packet [1])
    let log := fun cfg calls => (newPeerRateLimiter exactPerTick (some cfg)).peerLog calls
    (log { limitPerSecIP := 10, limitPerSecPeerID := 1 } [packet, packet]).map Prod.snd =
      [false, true] ∧
    (log { limitPerSecIP := 0, limitPerSecPeerID := 1 } [packet, packet]).map Prod.snd =
      [false, false] ∧
    (log { limitPerSecIP := 10, limitPerSecPeerID := 0 } [packet]).map Prod.snd = [true] := by
  decide +kernel

/-! ### The sustained rate -/

section Sustained

variable {K : Type} [DecidableEq K]

/-- The packets of `k` that are not flagged are at most `rate`, and `rate` more for every ten ticks
begun. -/
def Bounded (log : List (Demand K) → List (K × Bool)) (rate : ℤ) (k : K) : Prop :=
  ∀ ds, ((log ds).count (k, false) : ℤ) ≤ rate + rate * ((ds.count .tick + 9) / 10 : ℕ)

/-- Under a saturating load `rate` packets of `k` are not flagged before the first tick, and `rate`
in any ten consecutive blocks after that, each of which follows on a tick. -/
def Saturated (log : List (Demand K) → List (K × Bool)) (tokens : List (Demand K) → ℤ) (rate : ℤ)
    (k : K) : Prop :=
  (∀ block, Saturating tokens k [block] → ((log (load [block])).count (k, false) : ℤ) = rate) ∧
  ∀ before window, before ≠ [] → window.length = 10 → Saturating tokens k (before ++ window) →
    ((log (load (before ++ window))).count (k, false) : ℤ) =
      (log (load before)).count (k, false) + rate

/-- The limit is the rate that a key gets. -/
def Sustains (log : List (Demand K) → List (K × Bool)) (tokens : List (Demand K) → ℤ) (rate : ℤ)
    (k : K) : Prop := Bounded log rate k ∧ Saturated log tokens rate k

end Sustained

namespace ProofKit.Gate.Limits

variable {K : Type} [DecidableEq K] {G : Gate K} {perTick : ℤ → ℤ} {k : K}
variable (h : G.Limits perTick k)
include h

/-- Blocks that saturate whatever was before. -/
theorem saturating_replicate (n : Nat) :
    Saturating (G.tokens perTick k) k
      (List.replicate n (List.replicate (G.rate.toNat + 1) k)) := by
  apply h.saturating_of_lt
  intro block hblock
  rw [List.eq_of_mem_replicate hblock, List.count_replicate_self]
  omega

theorem bounded_iff : Bounded (G.log perTick) G.rate k ↔ 10 * perTick G.rate ≤ G.rate := by
  have hnonneg := h.nonneg
  constructor
  · intro hbounded
    -- after so many ticks the excess of each ten has outgrown the tokens that are left
    let n := 10 * ((perTick G.rate).toNat + 1)
    have hload := h.count_load (h.saturating_replicate n) (by simp [n])
    have hle := hbounded (load (List.replicate n (List.replicate (G.rate.toNat + 1) k)))
    rw [count_tick_load] at hle
    simp only [List.length_replicate] at hload hle
    have hceil : (n + 9) / 10 = (perTick G.rate).toNat + 1 := by omega
    rw [hceil] at hle
    have hn : (n : ℤ) = 10 * (perTick G.rate + 1) := by omega
    have hcast : (((perTick G.rate).toNat + 1 : ℕ) : ℤ) = perTick G.rate + 1 := by omega
    rw [hn] at hload
    rw [hcast] at hle
    nlinarith
  · intro hle ds
    have hlog := h.count_log_le ds
    have hticks : (ds.count .tick : ℤ) ≤ 10 * ((ds.count .tick + 9) / 10 : ℕ) := by omega
    nlinarith

theorem saturated_iff :
    Saturated (G.log perTick) (G.tokens perTick k) G.rate k ↔ 10 * perTick G.rate = G.rate := by
  constructor
  · intro hsaturated
    let block := List.replicate (G.rate.toNat + 1) k
    have hsat : Saturating (G.tokens perTick k) k (List.replicate 11 block) :=
      h.saturating_replicate 11
    have hsplit : [block] ++ List.replicate 10 block = List.replicate 11 block := rfl
    have hfirst := hsaturated.1 block (h.saturating_replicate 1)
    have hwindow := hsaturated.2 [block] (List.replicate 10 block) (by simp) (by simp) hsat
    have hload := h.count_load hsat (by simp)
    rw [hsplit, hfirst] at hwindow
    rw [hwindow, List.length_replicate] at hload
    push_cast at hload
    linarith
  · intro heq
    constructor
    · intro block hsat
      have hload := h.count_load hsat (by simp)
      rw [List.length_singleton] at hload
      push_cast at hload
      linarith
    · intro before window hne hlen hsat
      have hbefore := h.count_load (fun b block after hb => hsat b block (after ++ window)
        (by rw [hb]; simp)) hne
      have hall := h.count_load hsat (by simp [hne])
      rw [List.length_append, hlen] at hall
      push_cast at hall
      linarith

theorem sustains_iff :
    Sustains (G.log perTick) (G.tokens perTick k) G.rate k ↔ 10 * perTick G.rate = G.rate := by
  rw [Sustains, h.bounded_iff, h.saturated_iff]
  omega

end ProofKit.Gate.Limits

theorem exactPerTick_tenth (capacity : ℤ) :
    exactPerTick (1 / 10) capacity = (capacity + 5) / 10 := by
  have htenth : (1 / 2 : ℚ) + capacity * (1 / 10) = ((capacity + 5 : ℤ) : ℚ) / (10 : ℕ) := by
    push_cast
    ring
  rw [exactPerTick, htenth, Rat.floor_intCast_div_natCast]
  rfl

/-- A gate that is on, with a tenth of the rate for each tick. -/
theorem gate_sustained {K : Type} [DecidableEq K] {G : Gate K} {k : K} (hon : G.off = false)
    (hk : k ∉ G.exempt) (hname : Function.Injective G.name) (hrate : 1 ≤ G.rate) :
    (Bounded (G.log (exactPerTick (1 / 10))) G.rate k ↔ G.rate % 10 < 5) ∧
    (Sustains (G.log (exactPerTick (1 / 10))) (G.tokens (exactPerTick (1 / 10)) k) G.rate k ↔
      10 ∣ G.rate) := by
  have htick := exactPerTick_tenth G.rate
  have hlimits : G.Limits (exactPerTick (1 / 10)) k :=
    ⟨hon, hk, hname, by omega, by omega⟩
  rw [hlimits.bounded_iff, hlimits.sustains_iff, htick]
  omega

namespace PeerRateLimiterConfig

section Views

variable (cfg : PeerRateLimiterConfig)

/-- The verdicts of `throttleIP` alone. -/
def ipVerdicts (ds : List (Demand String)) : List (String × Bool) :=
  (newPeerRateLimiter exactPerTick (some cfg)).ipLog (ds.map .ip)

/-- The tokens of an address. -/
def ipTokens (ip : String) (ds : List (Demand String)) : ℤ :=
  ((Mealy.after PeerRateLimiter.step (newPeerRateLimiter exactPerTick (some cfg))
    (ds.map .ip)).ipThrottler.bucketOf ip cfg.limitPerSecIP).tokens

/-- The verdicts of `throttlePeer` alone. -/
def peerVerdicts (ds : List (Demand NodeID)) : List (NodeID × Bool) :=
  (newPeerRateLimiter exactPerTick (some cfg)).peerLog (ds.map peerCall)

/-- The tokens of a peer. -/
def peerTokens (id : NodeID) (ds : List (Demand NodeID)) : ℤ :=
  ((Mealy.after PeerRateLimiter.step (newPeerRateLimiter exactPerTick (some cfg))
    (ds.map peerCall)).peerIDThrottler.bucketOf (idString id) cfg.limitPerSecPeerID).tokens

theorem ipVerdicts_eq : cfg.ipVerdicts = cfg.ipGate.log (exactPerTick (1 / 10)) := by
  funext ds
  rw [ipVerdicts, ipLog_eq, filterMap_ipCall]

theorem peerVerdicts_eq : cfg.peerVerdicts = cfg.peerGate.log (exactPerTick (1 / 10)) := by
  funext ds
  rw [peerVerdicts, peerLog_eq, filterMap_peerCall]

theorem ipTokens_eq (ip : String) :
    cfg.ipTokens ip = cfg.ipGate.tokens (exactPerTick (1 / 10)) ip := by
  funext ds
  have hafter := (PeerRateLimiter.projects_ip cfg).after
    (newPeerRateLimiter_configures exactPerTick cfg) (ds.map .ip)
  rw [filterMap_ipCall] at hafter
  rw [ipTokens, hafter]
  rfl

theorem peerTokens_eq (id : NodeID) :
    cfg.peerTokens id = cfg.peerGate.tokens (exactPerTick (1 / 10)) id := by
  funext ds
  have hafter := (PeerRateLimiter.projects_peer cfg).after
    (newPeerRateLimiter_configures exactPerTick cfg) (ds.map peerCall)
  rw [filterMap_peerCall] at hafter
  rw [peerTokens, hafter]
  rfl

end Views

variable {cfg : PeerRateLimiterConfig}

/-- Without a limit for addresses all packets of a peer pass. -/
theorem not_bounded_off (hoff : cfg.limitPerSecIP = 0) (h : 1 ≤ cfg.limitPerSecPeerID)
    (id : NodeID) : ¬ Bounded cfg.peerVerdicts cfg.limitPerSecPeerID id := by
  intro hbounded
  let packets := List.replicate (cfg.limitPerSecPeerID.toNat + 1) (Demand.packet id)
  have hlog : cfg.peerVerdicts packets =
      List.replicate (cfg.limitPerSecPeerID.toNat + 1) (id, false) := by
    have hpassed : Gate.passed (Demand.packet id) = some (id, false) := rfl
    rw [peerVerdicts_eq, Gate.log_open fun _ => .inl (decide_eq_true hoff),
      List.filterMap_replicate_of_some hpassed]
  have hcount := hbounded packets
  have hticks : packets.count Demand.tick = 0 := by
    rw [List.count_eq_zero, List.mem_replicate]
    simp
  rw [hlog, hticks, List.count_replicate_self] at hcount
  omega

theorem ip_sustained (h : 1 ≤ cfg.limitPerSecIP) {ip : String} (hip : ip ∉ cfg.whitelistedIPs) :
    (Bounded cfg.ipVerdicts cfg.limitPerSecIP ip ↔ cfg.limitPerSecIP % 10 < 5) ∧
    (Sustains cfg.ipVerdicts (cfg.ipTokens ip) cfg.limitPerSecIP ip ↔ 10 ∣ cfg.limitPerSecIP) := by
  have hon : cfg.ipGate.off = false := decide_eq_false (by omega)
  rw [ipVerdicts_eq, ipTokens_eq]
  exact gate_sustained hon hip Function.injective_id h

theorem peer_sustained (h : 1 ≤ cfg.limitPerSecPeerID) {id : NodeID}
    (hid : id ∉ cfg.whitelistedPeerIDs) :
    (Bounded cfg.peerVerdicts cfg.limitPerSecPeerID id ↔
      cfg.limitPerSecIP ≠ 0 ∧ cfg.limitPerSecPeerID % 10 < 5) ∧
    (Sustains cfg.peerVerdicts (cfg.peerTokens id) cfg.limitPerSecPeerID id ↔
      cfg.limitPerSecIP ≠ 0 ∧ 10 ∣ cfg.limitPerSecPeerID) := by
  by_cases hoff : cfg.limitPerSecIP = 0
  · have hnot := not_bounded_off hoff h id
    simp [hoff, Sustains, hnot]
  · have hon : cfg.peerGate.off = false := decide_eq_false hoff
    rw [peerVerdicts_eq, peerTokens_eq, and_iff_right hoff, and_iff_right hoff]
    exact gate_sustained hon hid idString_injective h

end PeerRateLimiterConfig

/-- The verdicts of each limit depend on its own calls only.  For a limit of at least 1 and a key
that is not whitelisted, at most the limit is let through in the long run exactly when the last
digit of the limit is below 5, and the limit is what a saturating load gets exactly when it is a
multiple of 10; for peers there must be a limit for addresses, too. -/
theorem sustained_rate_iff (cfg : PeerRateLimiterConfig) :
    (∀ calls, (newPeerRateLimiter exactPerTick (some cfg)).ipLog calls =
      cfg.ipVerdicts (calls.filterMap LimiterCall.ipDemand)) ∧
    (∀ calls, (newPeerRateLimiter exactPerTick (some cfg)).peerLog calls =
      cfg.peerVerdicts (calls.filterMap LimiterCall.peerDemand)) ∧
    (1 ≤ cfg.limitPerSecIP → ∀ ip, ip ∉ cfg.whitelistedIPs →
      (Bounded cfg.ipVerdicts cfg.limitPerSecIP ip ↔ cfg.limitPerSecIP % 10 < 5) ∧
      (Sustains cfg.ipVerdicts (cfg.ipTokens ip) cfg.limitPerSecIP ip ↔
        10 ∣ cfg.limitPerSecIP)) ∧
    (1 ≤ cfg.limitPerSecPeerID → ∀ id, id ∉ cfg.whitelistedPeerIDs →
      (Bounded cfg.peerVerdicts cfg.limitPerSecPeerID id ↔
        cfg.limitPerSecIP ≠ 0 ∧ cfg.limitPerSecPeerID % 10 < 5) ∧
      (Sustains cfg.peerVerdicts (cfg.peerTokens id) cfg.limitPerSecPeerID id ↔
        cfg.limitPerSecIP ≠ 0 ∧ 10 ∣ cfg.limitPerSecPeerID)) := by
  refine ⟨fun calls => ?_, fun calls => ?_, fun h ip hip => ?_, fun h id hid => ?_⟩
  · rw [ipLog_eq, cfg.ipVerdicts_eq]
  · rw [peerLog_eq, cfg.peerVerdicts_eq]
  · exact PeerRateLimiterConfig.ip_sustained h hip
  · exact PeerRateLimiterConfig.peer_sustained h hid

theorem sustained_rate_iff_defaults :
    Sustains peerRateLimiterDefaults.ipVerdicts (peerRateLimiterDefaults.ipTokens "127.0.0.1") 10
      "127.0.0.1" := by
  obtain ⟨-, -, hip, -⟩ := sustained_rate_iff peerRateLimiterDefaults
  exact (hip (by decide) "127.0.0.1" (by simp [peerRateLimiterDefaults])).2.mpr (by decide)

/-- The limit 5, which is the default for peers: ten ticks give 10 packets.  The limit 4: after the
first four packets none is let through. -/
theorem not_sustained_rate :
    let cfg := fun limit => ({ limitPerSecIP := limit } : PeerRateLimiterConfig)
    let flood := fun n => load (List.replicate n (List.replicate 6 "127.0.0.1"))
    let passed := fun limit n => ((cfg limit).ipVerdicts (flood n)).count ("127.0.0.1", false)
    (passed 5 1 = 5 ∧ passed 5 11 = 15 ∧ ¬ Bounded (cfg 5).ipVerdicts 5 "127.0.0.1") ∧
    passed 4 1 = 4 ∧ passed 4 11 = 4 ∧
      ¬ Saturated (cfg 4).ipVerdicts ((cfg 4).ipTokens "127.0.0.1") 4 "127.0.0.1" := by
  intro cfg flood passed
  have hlisted : ∀ limit, "127.0.0.1" ∉ (cfg limit).whitelistedIPs := by simp [cfg]
  have hone : 1 ≤ (cfg 5).limitPerSecIP ∧ 1 ≤ (cfg 4).limitPerSecIP := by decide
  obtain ⟨hfive, -⟩ := PeerRateLimiterConfig.ip_sustained hone.1 (hlisted 5)
  obtain ⟨hbounded, hfour⟩ := PeerRateLimiterConfig.ip_sustained hone.2 (hlisted 4)
  refine ⟨⟨by decide +kernel, by decide +kernel, fun h => ?_⟩, by decide +kernel,
    by decide +kernel, fun h => ?_⟩
  · exact absurd (hfive.mp h) (by decide)
  · exact absurd (hfour.mp ⟨hbounded.mpr (by decide), h⟩) (by decide)

end Whisperv6
