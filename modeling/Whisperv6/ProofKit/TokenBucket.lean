import Mathlib.Algebra.Order.Ring.Int
import Mathlib.Data.List.Induction
import Mathlib.Logic.Function.Basic
import Mathlib.Tactic.Linarith
import Mathlib.Tactic.Ring
import Whisperv6.ProofKit.Mealy

/-! Token buckets.  A packet takes a token, or is refused when none is left; a tick adds some
tokens, up to the capacity.  A throttler keeps one bucket for each key, made when the key is first
used; a gate before it lets the exempt keys through.  Seen from one key, a gate is one bucket that
was there from the start. -/

namespace Whisperv6.ProofKit

/-! ### Buckets -/

structure Bucket where
  inc : ℤ
  tokens : ℤ
  capacity : ℤ

/-- What a limiter is asked to do. -/
inductive Demand (K : Type)
  | packet (key : K)
  | tick
  deriving DecidableEq

namespace Bucket

/-- A new bucket. -/
def full (inc capacity : ℤ) : Bucket := { inc, tokens := capacity, capacity }

/-- Take `n` tokens, or what there is; the second component is the number taken. -/
def take (b : Bucket) (n : ℤ) : Bucket × ℤ :=
  if b.tokens = 0 then (b, 0)
  else if n ≤ b.tokens then ({ b with tokens := b.tokens - n }, n)
  else ({ b with tokens := 0 }, b.tokens)

/-- Add `n` tokens, or what there is room for; the second component is the number added. -/
def put (b : Bucket) (n : ℤ) : Bucket × ℤ :=
  if b.tokens = b.capacity then (b, 0)
  else if n ≤ b.capacity - b.tokens then ({ b with tokens := b.tokens + n }, n)
  else ({ b with tokens := b.capacity }, b.capacity - b.tokens)

/-- Take `n` tokens, or put back what was taken and say so. -/
def halt (b : Bucket) (n : ℤ) : Bucket × Bool :=
  if (b.take n).2 ≠ n then (((b.take n).1.put (b.take n).2).1, true) else ((b.take n).1, false)

def fill (b : Bucket) : Bucket := (b.put b.inc).1

/-- One bucket as a machine; an output says whether the packet is refused. -/
def step (b : Bucket) : Demand Unit → Bucket × Option Bool
  | .packet _ => ((b.halt 1).1, some (b.halt 1).2)
  | .tick => (b.fill, none)

theorem halt_of_lt {b : Bucket} (h : b.tokens < 1) : (b.halt 1).2 = true := by
  have htake : (b.take 1).2 ≠ 1 := by
    unfold take
    split
    · simp
    · rw [if_neg (by omega)]
      show b.tokens ≠ 1
      omega
  rw [halt, if_pos htake]

theorem halt_of_empty {b : Bucket} (h : b.tokens = 0) (hcap : 0 ≤ b.capacity) :
    b.halt 1 = (b, true) := by
  have htake : b.take 1 = (b, 0) := if_pos h
  have hput : (b.put 0).1 = b := by
    unfold put
    split
    · rfl
    · rw [if_pos (by omega), add_zero]
  rw [halt, htake, if_pos (by simp), hput]

theorem halt_of_pos {b : Bucket} (h : 0 < b.tokens) :
    b.halt 1 = ({ b with tokens := b.tokens - 1 }, false) := by
  have htake : b.take 1 = ({ b with tokens := b.tokens - 1 }, 1) := by
    rw [take, if_neg (by omega), if_pos (by omega)]
  rw [halt, htake, if_neg (by simp)]

theorem fill_full (inc capacity : ℤ) : (full inc capacity).fill = full inc capacity := by
  have hfull : (full inc capacity).tokens = (full inc capacity).capacity := rfl
  rw [fill, put, if_pos hfull]

theorem fill_eq {b : Bucket} (hinc : 0 ≤ b.inc) :
    b.fill.inc = b.inc ∧ b.fill.capacity = b.capacity ∧
      (b.tokens ≤ b.capacity → b.fill.tokens = min (b.tokens + b.inc) b.capacity) := by
  unfold fill put
  split
  · refine ⟨rfl, rfl, fun _ => ?_⟩
    show b.tokens = _
    omega
  · split
    · refine ⟨rfl, rfl, fun _ => ?_⟩
      show b.tokens + b.inc = _
      omega
    · refine ⟨rfl, rfl, fun _ => ?_⟩
      show b.capacity = _
      omega

/-! ### Accounts -/

/-- A bucket with the increment `i` and the capacity `c`, filled up to the capacity at most. -/
structure Within (i c : ℤ) (b : Bucket) : Prop where
  inc : b.inc = i
  capacity : b.capacity = c
  nonneg : 0 ≤ b.tokens
  le : b.tokens ≤ c

theorem within_full {i c : ℤ} (h : 0 ≤ c) : (full i c).Within i c := ⟨rfl, rfl, h, le_refl c⟩

variable {i c : ℤ} {b : Bucket}

theorem Within.account_step (h : b.Within i c) (hinc : 0 ≤ i) (d : Demand Unit) :
    (b.step d).1.Within i c ∧
      ((b.step d).2.toList.count false : ℤ) + (b.step d).1.tokens ≤
        b.tokens + i * [d].count .tick := by
  obtain ⟨hi, hc, hnonneg, hle⟩ := h
  cases d with
  | packet key =>
    rcases Int.lt_or_eq_of_le hnonneg with hpos | hempty
    · rw [step, halt_of_pos hpos]
      refine ⟨⟨hi, hc, ?_, ?_⟩, ?_⟩
      · show 0 ≤ b.tokens - 1
        omega
      · show b.tokens - 1 ≤ c
        omega
      · simp
    · rw [step, halt_of_empty hempty.symm (by omega)]
      exact ⟨⟨hi, hc, hnonneg, hle⟩, by simp⟩
  | tick =>
    obtain ⟨hi', hc', hfill⟩ := fill_eq (b := b) (by omega)
    have htokens := hfill (by omega)
    rw [step]
    refine ⟨⟨hi'.trans hi, hc'.trans hc, ?_, ?_⟩, ?_⟩
    · show 0 ≤ b.fill.tokens
      omega
    · show b.fill.tokens ≤ c
      omega
    · simp
      omega

/-- What is let through, and the tokens left, come from the tokens at the start and those added. -/
theorem Within.account (h : b.Within i c) (hinc : 0 ≤ i) (ds : List (Demand Unit)) :
    (Mealy.after step b ds).Within i c ∧
      ((Mealy.outputs step b ds).count false : ℤ) + (Mealy.after step b ds).tokens ≤
        b.tokens + i * ds.count .tick := by
  induction ds generalizing b with
  | nil => exact ⟨h, by simp [Mealy.outputs, Mealy.after]⟩
  | cons d ds ih =>
    obtain ⟨hfirst, hone⟩ := h.account_step hinc d
    obtain ⟨hrest, hall⟩ := ih hfirst
    refine ⟨hrest, ?_⟩
    have hticks : (d :: ds).count Demand.tick = [d].count .tick + ds.count .tick := by
      rw [← List.count_append]
      rfl
    have hafter : Mealy.after step b (d :: ds) = Mealy.after step (b.step d).1 ds := rfl
    rw [Mealy.outputs, List.count_append, hticks, hafter]
    push_cast
    rw [mul_add]
    linarith

/-- As many packets as tokens, or more, empty the bucket. -/
theorem drain (hcap : 0 ≤ b.capacity) (hnonneg : 0 ≤ b.tokens) (packets : List Unit)
    (h : b.tokens ≤ packets.length) :
    Mealy.after step b (packets.map .packet) = { b with tokens := 0 } ∧
      ((Mealy.outputs step b (packets.map .packet)).count false : ℤ) = b.tokens := by
  induction packets generalizing b with
  | nil =>
    have hempty : b.tokens = 0 := le_antisymm h hnonneg
    exact ⟨by rw [← hempty]; rfl, hempty.symm⟩
  | cons u packets ih =>
    have hafter : Mealy.after step b ((u :: packets).map .packet) =
        Mealy.after step (b.halt 1).1 (packets.map .packet) := rfl
    have houtputs : Mealy.outputs step b ((u :: packets).map .packet) =
        (b.halt 1).2 :: Mealy.outputs step (b.halt 1).1 (packets.map .packet) := rfl
    rw [List.length_cons] at h
    push_cast at h
    rw [hafter, houtputs]
    rcases Int.lt_or_eq_of_le hnonneg with hpos | hempty
    · rw [halt_of_pos hpos]
      obtain ⟨hrest, hcount⟩ := ih (b := { b with tokens := b.tokens - 1 }) hcap
        (show 0 ≤ b.tokens - 1 by omega) (show b.tokens - 1 ≤ _ by omega)
      refine ⟨hrest, ?_⟩
      rw [List.count_cons_self]
      push_cast
      rw [hcount]
      show b.tokens - 1 + 1 = b.tokens
      omega
    · rw [halt_of_empty hempty.symm hcap]
      obtain ⟨hrest, hcount⟩ := ih hcap hnonneg (by omega)
      exact ⟨hrest, by rw [List.count_cons_of_ne (by simp), hcount]⟩

theorem length_outputs_packets (b : Bucket) (packets : List Unit) :
    (Mealy.outputs step b (packets.map .packet)).length = packets.length := by
  induction packets generalizing b with
  | nil => rfl
  | cons u packets ih =>
    rw [List.map_cons, Mealy.outputs, List.length_append, ih, List.length_cons]
    exact Nat.add_comm 1 _

/-- More packets than a new bucket has tokens: one is refused. -/
theorem exists_refused (i c : ℤ) :
    true ∈ Mealy.outputs step (full i c) ((List.replicate (c.toNat + 1) ()).map .packet) := by
  rcases lt_or_ge c 1 with hlow | hpos
  · have hhalt : ((full i c).halt 1).2 = true := halt_of_lt hlow
    rw [List.replicate_succ, List.map_cons, Mealy.outputs]
    show true ∈ ((full i c).halt 1).2 :: _
    rw [hhalt]
    exact List.mem_cons_self
  · have hc : 0 ≤ c := by omega
    have henough : c ≤ (List.replicate (c.toNat + 1) ()).length := by
      rw [List.length_replicate]
      omega
    obtain ⟨-, hcount⟩ := drain (b := full i c) hc hc _ henough
    by_contra hnone
    have hall : (Mealy.outputs step (full i c)
        ((List.replicate (c.toNat + 1) ()).map .packet)).count false = c.toNat + 1 := by
      rw [List.count_eq_length.mpr, length_outputs_packets, List.length_replicate]
      intro refused hmem
      cases refused with
      | false => rfl
      | true => exact absurd hmem hnone
    rw [hall] at hcount
    have hfull : ((c.toNat + 1 : ℕ) : ℤ) = c := hcount
    omega

end Bucket

/-! ### Loads -/

/-- Blocks of packets, each before a tick. -/
def load {K : Type} (blocks : List (List K)) : List (Demand K) :=
  blocks.flatMap fun block => block.map .packet ++ [.tick]

theorem load_append {K : Type} (blocks more : List (List K)) :
    load (blocks ++ more) = load blocks ++ load more := List.flatMap_append

theorem load_singleton {K : Type} (block : List K) :
    load [block] = block.map .packet ++ [.tick] := by
  simp [load]

theorem count_tick_load {K : Type} [DecidableEq K] (blocks : List (List K)) :
    (load blocks).count .tick = blocks.length := by
  induction blocks with
  | nil => rfl
  | cons block blocks ih =>
    have hone : (block.map Demand.packet).count Demand.tick = 0 := by
      rw [List.count_eq_zero]
      simp
    rw [← List.singleton_append, load_append, List.count_append, load_singleton, List.count_append,
      hone, ih]
    simp [Nat.add_comm]

/-- Before every tick there are more packets of `key` than tokens, where `tokens` gives the tokens
after some demands. -/
def Saturating {K : Type} [DecidableEq K] (tokens : List (Demand K) → ℤ) (key : K)
    (blocks : List (List K)) : Prop :=
  ∀ before block after, blocks = before ++ block :: after → tokens (load before) < block.count key

namespace Bucket

variable {i c : ℤ} {b : Bucket}

/-- Under a saturating load nothing that is added is lost, and every block begins with what one tick
adds. -/
theorem Within.account_saturating (h : b.Within i c) (hinc : 0 ≤ i) (hle : i ≤ c)
    (blocks : List (List Unit))
    (hsat : Saturating (fun ds => (Mealy.after step b ds).tokens) () blocks) :
    ((Mealy.outputs step b (load blocks)).count false : ℤ) +
        (Mealy.after step b (load blocks)).tokens = b.tokens + i * blocks.length ∧
      (blocks ≠ [] → (Mealy.after step b (load blocks)).tokens = i) := by
  induction blocks using List.reverseRecOn with
  | nil => exact ⟨by simp [load, Mealy.outputs, Mealy.after], by simp⟩
  | append_singleton blocks block ih =>
    obtain ⟨hsum, -⟩ := ih fun before block' after heq =>
      hsat before block' (after ++ [block]) (by rw [heq]; simp)
    obtain ⟨hwithin, -⟩ := h.account hinc (load blocks)
    have hmore : (Mealy.after step b (load blocks)).tokens < block.count () :=
      hsat blocks block [] rfl
    generalize hb' : Mealy.after step b (load blocks) = b' at hsum hwithin hmore
    have hlen : b'.tokens ≤ block.length := by
      have hcount := List.count_le_length (a := ()) (l := block)
      omega
    have hcap : 0 ≤ b'.capacity := by
      rw [hwithin.capacity]
      omega
    obtain ⟨hempty, hpassed⟩ := drain hcap hwithin.nonneg block hlen
    have hafter : Mealy.after step b (load (blocks ++ [block])) = { b' with tokens := 0 }.fill := by
      rw [load_append, Mealy.after_append, hb', load_singleton, Mealy.after_append, hempty]
      rfl
    have houtputs : ((Mealy.outputs step b (load (blocks ++ [block]))).count false : ℤ) =
        (Mealy.outputs step b (load blocks)).count false + b'.tokens := by
      rw [load_append, Mealy.outputs_append, hb', load_singleton, Mealy.outputs_append,
        List.count_append, List.count_append, ← hpassed]
      simp [Mealy.outputs, step]
    have htokens : { b' with tokens := 0 }.fill.tokens = i := by
      obtain ⟨-, -, hfill⟩ := fill_eq (b := { b' with tokens := 0 })
        (show 0 ≤ b'.inc by rw [hwithin.inc]; exact hinc)
      rw [hfill hcap]
      show min (0 + b'.inc) b'.capacity = i
      rw [hwithin.inc, hwithin.capacity]
      omega
    rw [hafter, houtputs, htokens]
    refine ⟨?_, fun _ => rfl⟩
    rw [List.length_append, List.length_singleton]
    push_cast
    rw [mul_add]
    linarith

end Bucket

/-! ### Throttlers and gates -/

/-- A bucket for each key that was used; `perTick` gives the increment for a capacity. -/
structure Throttler where
  perTick : ℤ → ℤ
  buckets : String → Option Bucket := fun _ => none

namespace Throttler

def bucket (th : Throttler) (key : String) (rate : ℤ) : Throttler × Bucket :=
  match th.buckets key with
  | some b => (th, b)
  | none =>
    let b := Bucket.full (th.perTick rate) rate
    ({ th with buckets := Function.update th.buckets key (some b) }, b)

def halt (th : Throttler) (key : String) (n rate : ℤ) : Throttler × Bool :=
  let (th, b) := th.bucket key rate
  ({ th with buckets := Function.update th.buckets key (some (b.halt n).1) }, (b.halt n).2)

/-- One tick. -/
def fill (th : Throttler) : Throttler :=
  { th with buckets := fun key => (th.buckets key).map Bucket.fill }

/-- The bucket of a key, or the one that would be made. -/
def bucketOf (th : Throttler) (key : String) (rate : ℤ) : Bucket :=
  (th.buckets key).getD (.full (th.perTick rate) rate)

theorem bucket_snd (th : Throttler) (key : String) (rate : ℤ) :
    (th.bucket key rate).2 = th.bucketOf key rate := by
  unfold bucket bucketOf
  cases th.buckets key <;> rfl

theorem halt_eq (th : Throttler) (key : String) (n rate : ℤ) :
    th.halt key n rate =
      ({ th with
          buckets := Function.update th.buckets key (some ((th.bucketOf key rate).halt n).1) },
        ((th.bucketOf key rate).halt n).2) := by
  have hbucket := th.bucket_snd key rate
  unfold halt
  dsimp only
  rw [hbucket]
  unfold bucket
  cases th.buckets key with
  | some b => rfl
  | none => simp

theorem bucketOf_halt_self (th : Throttler) (key : String) (n rate : ℤ) :
    (th.halt key n rate).1.bucketOf key rate = ((th.bucketOf key rate).halt n).1 := by
  rw [halt_eq, bucketOf]
  simp

theorem bucketOf_halt_of_ne (th : Throttler) {key key' : String} (h : key' ≠ key) (n rate : ℤ) :
    (th.halt key n rate).1.bucketOf key' rate = th.bucketOf key' rate := by
  rw [halt_eq]
  simp [bucketOf, h]

theorem bucketOf_fill (th : Throttler) (key : String) (rate : ℤ) :
    th.fill.bucketOf key rate = (th.bucketOf key rate).fill := by
  have hbuckets : th.fill.buckets key = (th.buckets key).map Bucket.fill := rfl
  rw [bucketOf, bucketOf, hbuckets]
  cases th.buckets key with
  | none => exact (Bucket.fill_full _ _).symm
  | some b => rfl

end Throttler

/-- A limit on the packets of each key. -/
structure Gate (K : Type) where
  off : Bool
  rate : ℤ
  exempt : List K
  name : K → String

namespace Gate

variable {K : Type} [DecidableEq K]

/-- A gate as a machine; an output is a packet with the verdict on it. -/
def step (G : Gate K) (th : Throttler) : Demand K → Throttler × Option (K × Bool)
  | .packet k =>
    if G.off = true ∨ k ∈ G.exempt then (th, some (k, false))
    else ((th.halt (G.name k) 1 G.rate).1, some (k, (th.halt (G.name k) 1 G.rate).2))
  | .tick => (th.fill, none)

/-- The verdicts of a gate whose throttler is new. -/
def log (G : Gate K) (perTick : ℤ → ℤ) (ds : List (Demand K)) : List (K × Bool) :=
  Mealy.outputs G.step { perTick } ds

/-- The tokens of a key after the demands. -/
def tokens (G : Gate K) (perTick : ℤ → ℤ) (k : K) (ds : List (Demand K)) : ℤ :=
  ((Mealy.after G.step { perTick } ds).bucketOf (G.name k) G.rate).tokens

variable {G : Gate K} {perTick : ℤ → ℤ} {k : K}

/-! ### Open gates -/

/-- A packet that is let through. -/
def passed : Demand K → Option (K × Bool)
  | .packet k => some (k, false)
  | .tick => none

theorem log_open (h : ∀ k, G.off = true ∨ k ∈ G.exempt) (ds : List (Demand K)) :
    G.log perTick ds = ds.filterMap passed := by
  have hall : ∀ th, Mealy.outputs G.step th ds = ds.filterMap passed := by
    induction ds with
    | nil => exact fun _ => rfl
    | cons d ds ih =>
      intro th
      rw [Mealy.outputs, ih]
      cases d with
      | packet k =>
        rw [step, if_pos (h k)]
        rfl
      | tick => rfl
  exact hall _

theorem not_refused_open (h : ∀ k, G.off = true ∨ k ∈ G.exempt) {ds : List (Demand K)}
    {e : K × Bool} (he : e ∈ G.log perTick ds) : e.2 = false := by
  rw [log_open h] at he
  obtain ⟨d, -, hd⟩ := List.mem_filterMap.mp he
  cases d with
  | packet k =>
    cases hd
    rfl
  | tick => cases hd

/-! ### One key of a gate -/

/-- What a demand asks of the bucket of `k`. -/
def demandOf (k : K) : Demand K → Option (Demand Unit)
  | .packet k' => if k' = k then some (.packet ()) else none
  | .tick => some .tick

/-- The verdict, if the packet is one of `k`. -/
def verdictOf (k : K) (e : K × Bool) : Option Bool := if e.1 = k then some e.2 else none

theorem projects (hoff : G.off = false) (hk : k ∉ G.exempt) (hname : Function.Injective G.name) :
    Mealy.Projects G.step Bucket.step (fun _ => True) (fun th => th.bucketOf (G.name k) G.rate)
      (demandOf k) (verdictOf k) := by
  refine ⟨fun _ _ _ => trivial, ?_, ?_⟩
  · intro th d _ hd
    cases d with
    | tick => cases hd
    | packet k' =>
      have hne : k' ≠ k := by
        rintro rfl
        simp [demandOf] at hd
      rw [step]
      split
      · exact ⟨rfl, by simp [verdictOf, hne]⟩
      · exact ⟨th.bucketOf_halt_of_ne (fun heq => hne (hname heq).symm) _ _,
          by simp [verdictOf, hne]⟩
  · intro th d d' _ hd
    cases d with
    | tick =>
      cases hd
      exact ⟨th.bucketOf_fill _ _, rfl⟩
    | packet k' =>
      by_cases hk' : k' = k
      · subst hk'
        have hd' : d' = .packet () := by simpa [demandOf] using hd.symm
        subst hd'
        rw [step, if_neg (by simp [hoff, hk])]
        refine ⟨th.bucketOf_halt_self _ _ _, ?_⟩
        rw [Throttler.halt_eq]
        simp [verdictOf, Bucket.step]
      · simp [demandOf, hk'] at hd

theorem count_verdictOf (k : K) (log : List (K × Bool)) (v : Bool) :
    (log.filterMap (verdictOf k)).count v = log.count (k, v) := by
  induction log with
  | nil => rfl
  | cons e log ih =>
    obtain ⟨k', v'⟩ := e
    by_cases hk : k' = k
    · subst hk
      rw [List.filterMap_cons_some (b := v') (by simp [verdictOf]), List.count_cons,
        List.count_cons, ih]
      simp
    · rw [List.filterMap_cons_none (by simp [verdictOf, hk]), ih, List.count_cons_of_ne]
      simp [hk]

theorem count_demandOf (k : K) (ds : List (Demand K)) :
    (ds.filterMap (demandOf k)).count .tick = ds.count .tick := by
  induction ds with
  | nil => rfl
  | cons d ds ih =>
    cases d with
    | tick =>
      have htick : demandOf k .tick = some .tick := rfl
      rw [List.filterMap_cons_some htick, List.count_cons_self, List.count_cons_self, ih]
    | packet k' =>
      rw [List.count_cons_of_ne (by simp), ← ih, List.filterMap_cons]
      by_cases hk : k' = k
      · simp [demandOf, hk]
      · simp [demandOf, hk]

theorem demandOf_packets (k : K) (block : List K) :
    (block.map Demand.packet).filterMap (demandOf k) =
      (List.replicate (block.count k) ()).map .packet := by
  induction block with
  | nil => rfl
  | cons k' block ih =>
    rw [List.map_cons, List.filterMap_cons, ih]
    by_cases hk : k' = k
    · simp [demandOf, hk, List.replicate_succ]
    · simp [demandOf, hk]

theorem demandOf_load (k : K) (blocks : List (List K)) :
    (load blocks).filterMap (demandOf k) =
      load (blocks.map fun block => List.replicate (block.count k) ()) := by
  induction blocks with
  | nil => rfl
  | cons block blocks ih =>
    rw [← List.singleton_append, load_append, List.filterMap_append, ih, load_singleton,
      List.filterMap_append, demandOf_packets, List.map_append, load_append, List.map_singleton,
      load_singleton]
    rfl

/-- A limited key is refused at some time, whatever the rate. -/
theorem exists_refused (hoff : G.off = false) (hk : k ∉ G.exempt)
    (hname : Function.Injective G.name) : ∃ ds, (k, true) ∈ G.log perTick ds := by
  let block := List.replicate (G.rate.toNat + 1) k
  refine ⟨block.map .packet, ?_⟩
  have hlog := (projects hoff hk hname).outputs (s := { perTick }) trivial (block.map .packet)
  rw [demandOf_packets, List.count_replicate_self] at hlog
  have hmem := Bucket.exists_refused (perTick G.rate) G.rate
  rw [← List.count_pos_iff, ← count_verdictOf]
  exact List.count_pos_iff.mpr (hlog ▸ hmem)

theorem never_refuses_iff (hname : Function.Injective G.name) :
    (∀ ds, ∀ e ∈ G.log perTick ds, e.2 = false) ↔ ∀ k, G.off = true ∨ k ∈ G.exempt := by
  constructor
  · intro hnever k
    by_contra hlimited
    rw [not_or, Bool.not_eq_true] at hlimited
    obtain ⟨ds, hmem⟩ : ∃ ds, (k, true) ∈ G.log perTick ds :=
      exists_refused hlimited.1 hlimited.2 hname
    exact absurd (hnever ds _ hmem) (by simp)
  · exact fun hopen ds e he => not_refused_open hopen he

/-- Two gates that may differ in the switch only give the same verdicts exactly when the switches
are equal or there is no key to limit. -/
theorem log_eq_iff (hname : Function.Injective G.name) (off : Bool) :
    (∀ ds, G.log perTick ds = { G with off }.log perTick ds) ↔
      G.off = off ∨ ∀ k, k ∈ G.exempt := by
  constructor
  · intro hsame
    by_contra hdiffer
    rw [not_or, not_forall] at hdiffer
    obtain ⟨hoff, k, hk⟩ := hdiffer
    -- the gate that is off never refuses, the other one refuses `k` at some time
    have hnever : (∀ ds, ∀ e ∈ G.log perTick ds, e.2 = false) ↔
        ∀ ds, ∀ e ∈ { G with off }.log perTick ds, e.2 = false := by
      simp only [hsame]
    rw [never_refuses_iff hname, never_refuses_iff (G := { G with off }) hname] at hnever
    cases hG : G.off with
    | true =>
      have := hnever.mp (fun _ => .inl hG) k
      simp_all
    | false =>
      have := hnever.mpr (fun _ => .inl (by simp_all)) k
      simp_all
  · rintro (rfl | hall)
    · exact fun _ => rfl
    · intro ds
      rw [log_open fun k => .inr (hall k), log_open (G := { G with off }) fun k => .inr (hall k)]

/-- The gate limits the packets of `k`, and a tick adds at most what a bucket holds. -/
structure Limits (G : Gate K) (perTick : ℤ → ℤ) (k : K) : Prop where
  on : G.off = false
  limited : k ∉ G.exempt
  injective : Function.Injective G.name
  nonneg : 0 ≤ perTick G.rate
  le : perTick G.rate ≤ G.rate

namespace Limits

variable (h : G.Limits perTick k)
include h

theorem count_log (ds : List (Demand K)) :
    (G.log perTick ds).count (k, false) = (Mealy.outputs Bucket.step
      (.full (perTick G.rate) G.rate) (ds.filterMap (demandOf k))).count false := by
  rw [← count_verdictOf]
  exact congrArg (List.count false) ((projects h.on h.limited h.injective).outputs trivial ds)

theorem tokens_eq (ds : List (Demand K)) :
    G.tokens perTick k ds = (Mealy.after Bucket.step (.full (perTick G.rate) G.rate)
      (ds.filterMap (demandOf k))).tokens :=
  congrArg Bucket.tokens ((projects h.on h.limited h.injective).after trivial ds)

omit [DecidableEq K] in
theorem within : (Bucket.full (perTick G.rate) G.rate).Within (perTick G.rate) G.rate :=
  Bucket.within_full (h.nonneg.trans h.le)

/-- At most what a new bucket holds and what the ticks add is let through. -/
theorem count_log_le (ds : List (Demand K)) :
    ((G.log perTick ds).count (k, false) : ℤ) ≤ G.rate + perTick G.rate * ds.count .tick := by
  obtain ⟨hwithin, hsum⟩ := h.within.account h.nonneg (ds.filterMap (demandOf k))
  rw [count_demandOf] at hsum
  have hnonneg := hwithin.nonneg
  have hfull : (Bucket.full (perTick G.rate) G.rate).tokens = G.rate := rfl
  rw [h.count_log]
  linarith

theorem saturating_of_lt {blocks : List (List K)}
    (hblocks : ∀ block ∈ blocks, G.rate < block.count k) :
    Saturating (G.tokens perTick k) k blocks := by
  rintro before block after rfl
  have hle := (h.within.account h.nonneg ((load before).filterMap (demandOf k))).1.le
  rw [h.tokens_eq]
  exact lt_of_le_of_lt hle (hblocks block (by simp))

/-- Under a saturating load every block is given what the tick before it adds, and the first block
what a new bucket holds. -/
theorem count_load {blocks : List (List K)} (hsat : Saturating (G.tokens perTick k) k blocks)
    (hne : blocks ≠ []) :
    ((G.log perTick (load blocks)).count (k, false) : ℤ) + perTick G.rate =
      G.rate + perTick G.rate * blocks.length := by
  have hsat' : Saturating (fun ds => (Mealy.after Bucket.step
      (.full (perTick G.rate) G.rate) ds).tokens) ()
      (blocks.map fun block => List.replicate (block.count k) ()) := by
    intro before' block' after' heq
    obtain ⟨before, rest, rfl, rfl, hrest⟩ := List.map_eq_append_iff.mp heq
    obtain ⟨block, after, rfl, rfl, -⟩ := List.map_eq_cons_iff.mp hrest
    have hmore := hsat before block after rfl
    rw [h.tokens_eq, demandOf_load] at hmore
    rw [List.count_replicate_self]
    exact hmore
  obtain ⟨hsum, hlast⟩ := h.within.account_saturating h.nonneg h.le _ hsat'
  rw [hlast (by simpa using hne), List.length_map] at hsum
  rw [h.count_log, demandOf_load]
  exact hsum

end Limits

end Gate

end Whisperv6.ProofKit
