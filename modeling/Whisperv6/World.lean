import Whisperv6.Mesh
import Whisperv6.Poller
import Whisperv6.Post

/-! The network with its clients.  Messages are posted at some nodes, their envelopes are gossiped,
and the messages are read from filters at other nodes.  What is read, and is not marked as a direct
message, is what some client has posted. -/

namespace Whisperv6

open ProofKit

/-! ### Runs -/

/-- A call of `Post` whose envelope `Send` has accepted, with the keys that the node had and the
bytes that were returned. -/
structure PostRecord where
  keys : KeyStore
  req : NewMessage
  params : MessageParams
  envelope : Envelope
  returned : Bytes := []

/-- The nodes with their gossip, the API of each node, and the calls of `Post`. -/
structure World (N : Type) where
  mesh : Mesh N
  desk : N → Poller
  posts : List PostRecord := []

inductive WorldAction (N : Type)
  | gossip (a : MeshAction N)
  | call (i : N) (a : PollAction)
  | tune (i : N) (tuning : Tuning)
  | post (i : N) (req : NewMessage) (x : Surroundings) (order : List N)
  | process (i : N) (order : List FilterRef)
  | processDirect (i : N) (order : List FilterRef)

/-- A step of the gossip that is no call of the API and does not process the queues for the
filters. -/
def MeshAction.Silent {N : Type} (s : Mesh N) : MeshAction N → Prop
  | .send .. => False
  | .others i w => w.settings = (s.node i).settings ∧ w.messageQueue = (s.node i).messageQueue
  | _ => True

/-- A call of the API that is not a step of the processors. -/
def PollAction.Call : PollAction → Prop
  | .notify .. => False
  | _ => True

namespace World

variable {N : Type} [DecidableEq N]

def start (cfg : N → Config) : World N where
  mesh := Mesh.start cfg
  desk i :=
    { api := { subscriber := { tuning := { settings := (new (cfg i)).settings, clock := 0 } } } }

/-- The API of the node `i` becomes `d`. -/
def setDesk (s : World N) (i : N) (d : Poller) : World N :=
  { s with desk := Function.update s.desk i d }

/-- The node `i` takes over the settings of its API. -/
def setSettings (s : World N) (i : N) : World N :=
  { s with
    mesh := s.mesh.setNode i
      { s.mesh.node i with settings := (s.desk i).api.subscriber.tuning.settings } ∅ }

/-- The peers of the node `i`, in the order of a loop over them. -/
def peers (s : World N) (i : N) (order : List N) : List Peer :=
  order.filterMap fun j => (s.mesh.loops i j).map Loop.peer

/-- The state after a call of `Post` at the node `i`.  A packet for a peer is written to the
connection that has it. -/
def posted (s : World N) (i : N) (order : List N) (record : PostRecord) (out : PostResult) :
    World N :=
  match out.returned, out.written with
  | .error _, _ => { s with mesh := s.mesh.setNode i out.whisper ∅ }
  | .ok returned, none =>
    { s with
      mesh :=
        { s.mesh.setNode i out.whisper ∅ with injected := s.mesh.injected ++ [record.envelope] }
      posts := s.posts ++ [{ record with returned }] }
  | .ok _, some (p, packet) =>
    match order.find? fun j => (s.mesh.loops i j).map Loop.peer = some p with
    | none => { s with mesh := s.mesh.setNode i out.whisper ∅ }
    | some j =>
      { s with mesh := (s.mesh.setNode i out.whisper ∅).setWire i j (s.mesh.wire i j ++ [packet]) }

end World

section Step

variable {N : Type} [DecidableEq N] (C : Crypto) (kdf : Pbkdf2)
  (unmarshalPubkey : Bytes → Option PublicKey) (parseNode : Bytes → Except GoError NodeID)

/-- The steps.  A call of `Post` that fails before it has an envelope does nothing. -/
def WorldStep (s : World N) : WorldAction N → World N → Prop
  | .gossip a, t => a.Silent s.mesh ∧ ∃ mesh, MeshStep C s.mesh a mesh ∧ t = { s with mesh }
  | .call i a, t => a.Call ∧ ∃ d, PollStep C kdf unmarshalPubkey (s.desk i) a d ∧
    t = (s.setDesk i d).setSettings i
  | .tune i tuning, t =>
    let api := (s.desk i).api
    t = (s.setDesk i { s.desk i with
      api := { api with subscriber := { api.subscriber with tuning } } }).setSettings i
  | .post i req x order, t =>
    (∃ fault, (s.desk i).api.compose C kdf unmarshalPubkey req x.rnd x.rnd' x.wrapped x.rounds =
      .error fault ∧ t = s) ∨
    ∃ params e, (s.desk i).api.compose C kdf unmarshalPubkey req x.rnd x.rnd' x.wrapped x.rounds =
        .ok (params, e) ∧
      t = s.posted i order { keys := (s.desk i).api.keys, req, params, envelope := e }
        ((s.mesh.node i).dispatch C parseNode (s.peers i order) req e x.now x.sent)
  | .process i order, t => ∃ e rest w d, (s.mesh.node i).messageQueue = e :: rest ∧
    (s.mesh.node i).processQueue C = some w ∧
    PollStep C kdf unmarshalPubkey (s.desk i) (.notify e false order) d ∧
    t = { s.setDesk i d with mesh := s.mesh.setNode i w ∅ }
  | .processDirect i order, t => ∃ e rest w d, (s.mesh.node i).p2pMsgQueue = .envelope e :: rest ∧
    (s.mesh.node i).processP2P C = some w ∧
    PollStep C kdf unmarshalPubkey (s.desk i) (.notify e true order) d ∧
    t = { s.setDesk i d with mesh := s.mesh.setNode i w ∅ }

end Step

/-! ### Envelopes with the same fields -/

section Fields

variable {C : Crypto} {e e₀ : Envelope} {f : Filter} {m : ReceivedMessage}

theorem Envelope.SameFields.hash_eq (h : e.SameFields e₀) (hsound : e.HashSound C)
    (hsound₀ : e₀.HashSound C) : e.hash C = e₀.hash C := by
  rw [hsound.hash_eq, hsound₀.hash_eq]
  show C.keccak256Hash e.bare.encode = C.keccak256Hash e₀.bare.encode
  rw [h.bare_eq]

theorem Envelope.decrypt_congr (h : e.data = e₀.data) : e.decrypt C f = e₀.decrypt C f := by
  unfold decrypt openAsymmetric openSymmetric
  rw [h]

/-- What is opened depends on the data alone, the values apart that the caches give. -/
theorem Envelope.SameFields.open_eq (h : e.SameFields e₀) (hopen : e.openEnvelope C f = some m) :
    ∃ m₀, e₀.openEnvelope C f = some m₀ ∧ m₀.payload = m.payload ∧ m₀.padding = m.padding ∧
      m₀.src = m.src := by
  obtain ⟨-, -, -, hdata, -⟩ := h
  unfold openEnvelope at hopen ⊢
  rw [← decrypt_congr hdata]
  obtain ⟨d, hd, hopen⟩ := Option.bind_eq_some_iff.mp hopen
  rw [hd, Option.bind_some]
  cases hparse : d.validateAndParse C with
  | error fault =>
    rw [hparse] at hopen
    cases hopen
  | ok result =>
    rw [hparse] at hopen
    cases result with
    | none => cases hopen
    | some parsed =>
      cases hopen
      exact ⟨_, rfl, rfl, rfl, rfl⟩

end Fields

/-! ### The invariant -/

namespace World

structure Sound {N : Type} (C : Crypto) (kdf : Pbkdf2)
    (unmarshalPubkey : Bytes → Option PublicKey) (s : World N) : Prop where
  genuine : s.mesh.Genuine C
  injected : ∀ e ∈ s.mesh.injected, ∃ y ∈ s.posts, y.envelope = e
  posts : ∀ y ∈ s.posts, y.returned = (y.envelope.hash C).bytes ∧
    y.req.Makes C kdf unmarshalPubkey y.keys y.params y.envelope
  desk : ∀ i, (s.desk i).Sound C kdf unmarshalPubkey
  notified : ∀ i, ∀ n ∈ (s.desk i).notified, n.2 = false → n.1.Authentic C s.mesh.injected

variable {N : Type} {C : Crypto} {kdf : Pbkdf2} {unmarshalPubkey : Bytes → Option PublicKey}
  {parseNode : Bytes → Except GoError NodeID} {s t : World N}

theorem start_sound (C : Crypto) (kdf : Pbkdf2) (unmarshalPubkey : Bytes → Option PublicKey)
    (cfg : N → Config) : (start cfg).Sound C kdf unmarshalPubkey where
  genuine := Mesh.start_genuine C cfg
  injected e he := by cases he
  posts y hy := by cases hy
  desk i := Poller.start_sound C kdf unmarshalPubkey _
  notified i n hn := by cases hn

/-- The node changes, and with it at most what it has injected. -/
theorem Sound.setMesh (h : s.Sound C kdf unmarshalPubkey) {mesh : Mesh N}
    (hgenuine : mesh.Genuine C) (hinjected : mesh.injected = s.mesh.injected) :
    Sound C kdf unmarshalPubkey { s with mesh } where
  genuine := hgenuine
  injected := by
    show ∀ e ∈ mesh.injected, _
    rw [hinjected]
    exact h.injected
  posts := h.posts
  desk := h.desk
  notified := by
    show ∀ i, ∀ n ∈ (s.desk i).notified, n.2 = false → n.1.Authentic C mesh.injected
    rw [hinjected]
    exact h.notified

/-- An envelope that a filter was notified about, and that is not direct, has the fields of one that
a call of `Post` has made; where that one opens to nothing else than what was encrypted, a filter
opens it to what the call was given. -/
theorem Sound.opened (h : s.Sound C kdf unmarshalPubkey) {i : N} {n : Envelope × Bool}
    (hn : n ∈ (s.desk i).notified) (hdirect : n.2 = false) {m : ReceivedMessage}
    (hfrom : m.From C n) :
    ∃ y ∈ s.posts, n.1.SameFields y.envelope ∧ n.1.hash C = y.envelope.hash C ∧
      (y.envelope.Binds C y.params → C.Signs y.params → y.req.payload.length < 2 ^ 24 →
        m.payload = y.req.payload ∧ (y.req.padding ≠ [] → m.padding = y.req.padding) ∧
        m.src = y.params.src.map PrivateKey.publicKey) := by
  obtain ⟨hsound, e₀, he₀, hfields⟩ := h.notified i n hn hdirect
  obtain ⟨y, hy, rfl⟩ := h.injected e₀ he₀
  obtain ⟨-, hmakes⟩ := h.posts y hy
  refine ⟨y, hy, hfields, hfields.hash_eq hsound hmakes.hashSound, fun hbinds hsigns hshort => ?_⟩
  obtain ⟨g, m₀, -, hopen, rfl⟩ := hfrom
  obtain ⟨m₁, hopen₁, hpayload, hpadding, hsrc⟩ := hfields.open_eq hopen
  have hkey : (y.envelope.decrypt C g).isSome = true := by
    obtain ⟨d, hd, -⟩ := Option.bind_eq_some_iff.mp hopen₁
    rw [hd]
    rfl
  obtain ⟨m', hopen', hpayload', hpadding', hsrc', -⟩ := hmakes.reads hshort hbinds hsigns g hkey
  cases hopen₁.symm.trans hopen'
  rw [hmakes.describes.padding] at hpadding'
  exact ⟨hpayload.symm.trans (hpayload'.trans hmakes.describes.payload),
    fun hne => hpadding.symm.trans (hpadding' hne), hsrc.symm.trans hsrc'⟩

variable [DecidableEq N]

theorem Sound.setDesk (h : s.Sound C kdf unmarshalPubkey) {i : N} {d : Poller}
    (hd : d.Sound C kdf unmarshalPubkey)
    (hnotified : ∀ n ∈ d.notified, n.2 = false → n.1.Authentic C s.mesh.injected) :
    (s.setDesk i d).Sound C kdf unmarshalPubkey where
  genuine := h.genuine
  injected := h.injected
  posts := h.posts
  desk := (Function.forall_update_iff s.desk (p := fun _ d => d.Sound C kdf unmarshalPubkey)).mpr
    ⟨hd, fun j _ => h.desk j⟩
  notified := (Function.forall_update_iff s.desk (p := fun _ d => ∀ n ∈ d.notified, n.2 = false →
    n.1.Authentic C s.mesh.injected)).mpr ⟨hnotified, fun j _ => h.notified j⟩

theorem Sound.setSettings (h : s.Sound C kdf unmarshalPubkey) (i : N) :
    (s.setSettings i).Sound C kdf unmarshalPubkey := by
  refine h.setMesh (h.genuine.setNode ∅ ?_) rfl
  exact (h.genuine.node i).others rfl rfl (List.suffix_refl _)

/-- The calls of the API do not notify filters. -/
theorem notified_call {d d' : Poller} {a : PollAction} (ha : a.Call)
    (hstep : PollStep C kdf unmarshalPubkey d a d') : d'.notified = d.notified := by
  cases a with
  | keyCall a =>
    obtain ⟨keys, -, rfl⟩ := hstep
    rfl
  | symKeyCall a =>
    obtain ⟨keys, -, rfl⟩ := hstep
    rfl
  | newMessageFilter crit rnd r =>
    obtain ⟨-, rfl⟩ := hstep
    unfold Poller.made
    split <;> rfl
  | messages crit supported rnd r =>
    obtain ⟨-, rfl⟩ := hstep
    unfold Poller.made
    split <;> rfl
  | unsubscribe id =>
    cases hstep
    rfl
  | notify e p2p order => exact ha.elim
  | getFilterMessages id order =>
    obtain ⟨-, rfl⟩ := hstep
    rfl
  | tick id order =>
    obtain ⟨r, -, -, rfl⟩ := hstep
    rfl

/-- An envelope that `Send` has taken is one that was posted. -/
theorem Sound.pooled (h : s.Sound C kdf unmarshalPubkey) {i : N} {now : UInt32} {y : PostRecord}
    {w : Whisper} (hsend : (s.mesh.node i).send C now y.envelope = (w, none))
    (hreturned : y.returned = (y.envelope.hash C).bytes)
    (hmakes : y.req.Makes C kdf unmarshalPubkey y.keys y.params y.envelope) :
    ({ s with
        mesh := { s.mesh.setNode i w ∅ with injected := s.mesh.injected ++ [y.envelope] }
        posts := s.posts ++ [y] } : World N).Sound C kdf unmarshalPubkey where
  genuine := by
    have hmesh : ({ s.mesh.setNode i w ∅ with
        injected := s.mesh.injected ++ [y.envelope] } : Mesh N) =
        s.mesh.send C i now y.envelope := by
      unfold Mesh.send
      rw [hsend]
      rfl
    show Mesh.Genuine C { s.mesh.setNode i w ∅ with
      injected := s.mesh.injected ++ [y.envelope] }
    rw [hmesh]
    exact h.genuine.send i now hmakes.hashSound
  injected e he := by
    obtain he | he := List.mem_append.mp he
    · obtain ⟨x, hx, heq⟩ := h.injected e he
      exact ⟨x, List.mem_append_left _ hx, heq⟩
    · rw [List.mem_singleton.mp he]
      exact ⟨y, List.mem_append_right _ (List.mem_singleton_self y), rfl⟩
  posts x hx := by
    obtain hx | hx := List.mem_append.mp hx
    · exact h.posts x hx
    · rw [List.mem_singleton.mp hx]
      exact ⟨hreturned, hmakes⟩
  desk := h.desk
  notified j n hn hflag := (h.notified j n hn hflag).mono (List.subset_append_left _ _)

/-- The envelope of a call of `Post` goes to `Send`, or in a packet for the direct channel to a
peer. -/
theorem Sound.posted (h : s.Sound C kdf unmarshalPubkey) (i : N) (order : List N)
    (record : PostRecord)
    (hmakes : record.req.Makes C kdf unmarshalPubkey record.keys record.params record.envelope)
    (now : UInt32) (sent : Option GoError) :
    (s.posted i order record ((s.mesh.node i).dispatch C parseNode (s.peers i order) record.req
      record.envelope now sent)).Sound C kdf unmarshalPubkey := by
  obtain ⟨err, hfail⟩ | ⟨hok, hsent⟩ := (s.mesh.node i).dispatch_cases C parseNode
    (s.peers i order) record.req record.envelope now sent
  · rw [hfail]
    exact h.setMesh (h.genuine.setNode ∅ (h.genuine.node i)) rfl
  · generalize (s.mesh.node i).dispatch C parseNode (s.peers i order) record.req
      record.envelope now sent = out at hok hsent
    obtain ⟨w, written, returned⟩ := out
    cases hok
    cases hsent with
    | direct id p htarget hparse hp hid hwhisper hwritten =>
      cases hwhisper
      cases hwritten
      have hnode := h.setMesh (h.genuine.setNode (i := i) ∅ (h.genuine.node i)) rfl
      unfold World.posted
      dsimp only
      split
      · exact hnode
      · rename_i j _
        have hcode : (sendP2PDirect [record.envelope]).code ≠ messagesCode := by
          show p2pMessageCode ≠ messagesCode
          decide
        exact hnode.setMesh (hnode.genuine.transmit i j hcode) rfl
    | pooled htarget hpow hsend hmem hwritten =>
      cases hwritten
      exact h.pooled (y := { record with returned := (record.envelope.hash C).bytes }) hsend rfl
        hmakes

/-- A processor notifies the filters about an envelope; one from the queue for the network has to be
authentic. -/
theorem Sound.processed (h : s.Sound C kdf unmarshalPubkey) (hcurve : C.RecoversPoints) {i : N}
    {e : Envelope} {p2p : Bool} {order : List FilterRef} {d : Poller} {w : Whisper}
    (hd : PollStep C kdf unmarshalPubkey (s.desk i) (.notify e p2p order) d)
    (hw : w.Holds C (Envelope.Authentic C s.mesh.injected))
    (he : p2p = false → e.Authentic C s.mesh.injected) :
    ({ s.setDesk i d with mesh := s.mesh.setNode i w ∅ } : World N).Sound
      C kdf unmarshalPubkey := by
  have hdesk := (h.desk i).step hcurve hd
  obtain ⟨-, rfl⟩ := hd
  refine (h.setDesk hdesk fun n hn hflag => ?_).setMesh (h.genuine.setNode ∅ hw) rfl
  obtain hn | hn := List.mem_append.mp hn
  · exact h.notified i n hn hflag
  · rw [List.mem_singleton.mp hn] at hflag ⊢
    exact he hflag

theorem Sound.step (h : s.Sound C kdf unmarshalPubkey) (hcurve : C.RecoversPoints)
    {a : WorldAction N} (hstep : WorldStep C kdf unmarshalPubkey parseNode s a t) :
    t.Sound C kdf unmarshalPubkey := by
  cases a with
  | gossip a =>
    obtain ⟨hsilent, mesh, hmesh, rfl⟩ := hstep
    refine h.setMesh (h.genuine.step hmesh) ?_
    obtain hsame | ⟨i, now, e, rfl, -⟩ := Mesh.injected_cases hmesh
    · exact hsame
    · exact hsilent.elim
  | call i a =>
    obtain ⟨hcall, d, hd, rfl⟩ := hstep
    refine (h.setDesk ((h.desk i).step hcurve hd) ?_).setSettings i
    rw [notified_call hcall hd]
    exact h.notified i
  | tune i tuning =>
    cases hstep
    obtain ⟨hindexed, htold, hkeys, hasked, hgone, hpolls⟩ := h.desk i
    refine (h.setDesk ?_ ?_).setSettings i
    · exact ⟨hindexed, htold, hkeys, hasked, hgone, hpolls⟩
    · exact h.notified i
  | post i req x order =>
    obtain ⟨fault, -, rfl⟩ | ⟨params, e, hcompose, rfl⟩ := hstep
    · exact h
    · have hmakes := Api.compose_ok hcompose
      exact h.posted i order { keys := (s.desk i).api.keys, req, params, envelope := e } hmakes
        x.now x.sent
  | process i order =>
    obtain ⟨e, rest, w, d, hqueue, hw, hd, rfl⟩ := hstep
    have hhead : e ∈ (s.mesh.node i).messageQueue := by
      rw [hqueue]
      exact List.mem_cons_self
    have hnode := h.genuine.node i
    unfold Whisper.processQueue at hw
    rw [hqueue] at hw
    cases hw
    refine h.processed hcurve hd (hnode.others rfl rfl ?_) fun _ => hnode.queued e hhead
    rw [hqueue]
    exact List.suffix_cons e rest
  | processDirect i order =>
    obtain ⟨e, rest, w, d, hqueue, hw, hd, rfl⟩ := hstep
    unfold Whisper.processP2P at hw
    rw [hqueue] at hw
    cases hw
    refine h.processed hcurve hd ((h.genuine.node i).others rfl rfl (List.suffix_refl _)) ?_
    rintro ⟨⟩

/-- From `Post` to `GetFilterMessages`: over every run of a network of nodes and clients, a message
that a client reads, and that is not marked as direct, was posted by some client, who was returned
its hash; it has the topic and the lifetime of the request.  It has also the payload, the padding
and the signer of the request, if the envelope of that request opens to nothing else than what was
encrypted and the signatures made for it can be verified. -/
theorem polled_was_posted (C : Crypto) (hcurve : C.RecoversPoints) (kdf : Pbkdf2)
    (unmarshalPubkey : Bytes → Option PublicKey) (parseNode : Bytes → Except GoError NodeID)
    (cfg : N → Config) {acts : List (WorldAction N)} {s : World N}
    (run : Run (WorldStep C kdf unmarshalPubkey parseNode) (start cfg) acts s)
    (i : N) {p : Poll} (hp : p ∈ (s.desk i).polls) {messages : List Message}
    (hresult : p.result = .ok messages) {x : Message} (hx : x ∈ messages)
    (hdirect : x.p2p = false) :
    ∃ y ∈ s.posts, x.hash = y.returned ∧ x.topic = y.req.topic ∧ x.ttl = y.req.lifetime ∧
      (y.envelope.Binds C y.params → C.Signs y.params → y.req.payload.length < 2 ^ 24 →
        x.payload = y.req.payload ∧ (y.req.padding ≠ [] → x.padding = y.req.padding) ∧
        ((y.req.sig = [] ∧ x.sig = []) ∨ ∃ key, y.keys.getPrivateKey kdf y.req.sig = .ok key ∧
          marshalKey (some key.publicKey) = .ok x.sig)) := by
  have hsound : s.Sound C kdf unmarshalPubkey :=
    run.invariant (start_sound C kdf unmarshalPubkey cfg) fun _ _ _ _ h hstep =>
      h.step hcurve hstep
  obtain ⟨-, herror⟩ | ⟨a, messages', -, hok, hall⟩ := (hsound.desk i).polls p hp
  · rw [hresult] at herror
    cases herror
  cases hresult.symm.trans hok
  obtain ⟨n, hn, m, hfrom, hreports, -⟩ := hall x hx
  have hflag : n.2 = false := by
    obtain ⟨g, m₀, -, -, rfl⟩ := hfrom
    exact hreports.p2p.symm.trans hdirect
  obtain ⟨y, hy, ⟨-, httl, htopic, -, -⟩, hhash, hopened⟩ := hsound.opened hn hflag hfrom
  obtain ⟨hreturned, hmakes⟩ := hsound.posts y hy
  refine ⟨y, hy, ?_, ?_, ?_, fun hbinds hsigns hshort => ?_⟩
  · rw [hreports.hash, hhash, hreturned]
  · rw [hreports.topic, htopic, hmakes.topic]
  · rw [hreports.ttl, httl, hmakes.ttl]
  · obtain ⟨hpayload, hpadding, hsrc⟩ := hopened hbinds hsigns hshort
    refine ⟨hreports.payload.trans hpayload, fun hne => hreports.padding.trans (hpadding hne), ?_⟩
    have hsig := hreports.sig
    rw [hsrc] at hsig
    obtain ⟨hnone, hunsigned⟩ | ⟨key, hkey, hsigned⟩ := hmakes.describes.signer
    · rw [hunsigned] at hsig
      exact .inl ⟨hnone, (Except.ok.inj hsig).symm⟩
    · rw [hsigned] at hsig
      exact .inr ⟨key, hkey, hsig⟩

/-- Functions with which only the key of a message opens it: the key is the tag. -/
def keyedCrypto : Crypto :=
  { tagCrypto with
    aesgcmSeal := fun key _ text => text ++ key
    aesgcmOpen := fun key _ text =>
      if text.drop (text.length - 32) = key then .ok (text.take (text.length - 32))
      else .error (newError "cipher: message authentication failed")
    eciesDecrypt := fun _ _ => .error (newError "ecies: invalid message") }

def sampleRequest : NewMessage :=
  { symKeyID := goString (Poller.sampleID 3), topic := bytesToTopic [1, 2, 3, 4],
    payload := [1, 2, 3] }

def sampleSurroundings : Surroundings where
  rnd := constantEntropy
  rnd' := constantEntropy
  wrapped := 1600000000
  rounds := 0
  now := 1600000000
  sent := none

/-- One node, whose client adds a key, makes a filter, posts a message and reads it. -/
def keyedWorld : World Unit :=
  let settings := (new { minimumAcceptedPOW := 0 }).settings
  ((start fun _ => { minimumAcceptedPOW := 0 }).setDesk () { api :=
    { subscriber := { tuning := { settings, clock := 0 } }
      keys := (({} : KeyStore).addSymKeyDirect (some topicKey) (idEntropy 1)).1 } }).setSettings ()

def filteringWorld : World Unit :=
  (keyedWorld.setDesk () ((keyedWorld.desk ()).made
    { symKeyID := sampleRequest.symKeyID, topics := [sampleRequest.topic] }
    ((keyedWorld.desk ()).api.newMessageFilter keyedCrypto Poller.sampleKdf (fun _ => none)
      { symKeyID := sampleRequest.symKeyID, topics := [sampleRequest.topic] } (idEntropy 4)
      0))).setSettings ()

def composedMessage : MessageParams × Envelope :=
  ((filteringWorld.desk ()).api.compose keyedCrypto Poller.sampleKdf (fun _ => none) sampleRequest
    constantEntropy constantEntropy 1600000000 0).toOption.getD
      (topicParams none [] [], sampleEnvelope)

def postedWorld : World Unit :=
  filteringWorld.posted () []
    { keys := (filteringWorld.desk ()).api.keys
      req := sampleRequest
      params := composedMessage.1
      envelope := composedMessage.2 }
    ((filteringWorld.mesh.node ()).dispatch keyedCrypto (fun _ => .ok 0) [] sampleRequest
      composedMessage.2 1600000000 none)

def worldEnvelope : Envelope := ((postedWorld.mesh.node ()).messageQueue.head?).getD sampleEnvelope

def processedWorld : World Unit :=
  { postedWorld.setDesk ()
      { postedWorld.desk () with
        api := (postedWorld.desk ()).api.notify keyedCrypto worldEnvelope false [0]
        notified := (postedWorld.desk ()).notified ++ [(worldEnvelope, false)] } with
    mesh := postedWorld.mesh.setNode ()
      (((postedWorld.mesh.node ()).processQueue keyedCrypto).getD (postedWorld.mesh.node ())) ∅ }

def polledWorld : World Unit :=
  (processedWorld.setDesk () ((processedWorld.desk ()).polled (Poller.sampleID 6)
    ((processedWorld.desk ()).api.getFilterMessages keyedCrypto (Poller.sampleID 6)
      [worldEnvelope.hash keyedCrypto]))).setSettings ()

theorem filteringWorld_compose : (filteringWorld.desk ()).api.compose keyedCrypto Poller.sampleKdf
    (fun _ => none) sampleRequest constantEntropy constantEntropy 1600000000 0 =
      .ok composedMessage := by
  have hsome : ((filteringWorld.desk ()).api.compose keyedCrypto Poller.sampleKdf (fun _ => none)
    sampleRequest constantEntropy constantEntropy 1600000000 0).toOption.isSome = true := by
    decide +kernel
  unfold composedMessage
  cases hcompose : (filteringWorld.desk ()).api.compose keyedCrypto Poller.sampleKdf
    (fun _ => none) sampleRequest constantEntropy constantEntropy 1600000000 0 with
  | error fault =>
    rw [hcompose] at hsome
    cases hsome
  | ok x => rfl

theorem postedWorld_queue : (postedWorld.mesh.node ()).messageQueue = [worldEnvelope] := by
  decide +kernel

theorem polledWorld_run : ∃ acts, Run (WorldStep keyedCrypto Poller.sampleKdf (fun _ => none)
    fun _ => .ok 0) (start fun _ => { minimumAcceptedPOW := 0 }) acts polledWorld := by
  have hkey : WorldStep keyedCrypto Poller.sampleKdf (fun _ => none) (fun _ => .ok 0)
      (start fun _ => { minimumAcceptedPOW := 0 })
      (.call () (.symKeyCall (.addSymKeyDirect (some topicKey) (idEntropy 1)))) keyedWorld :=
    ⟨trivial, _, ⟨_, rfl, rfl⟩, rfl⟩
  have hfilter : WorldStep keyedCrypto Poller.sampleKdf (fun _ => none) (fun _ => .ok 0)
      keyedWorld (.call () (.newMessageFilter _ (idEntropy 4) 0)) filteringWorld :=
    ⟨trivial, _, ⟨by decide +kernel, rfl⟩, rfl⟩
  have hpost : WorldStep keyedCrypto Poller.sampleKdf (fun _ => none) (fun _ => .ok 0)
      filteringWorld (.post () sampleRequest sampleSurroundings []) postedWorld :=
    .inr ⟨_, _, filteringWorld_compose, rfl⟩
  have hprocess : WorldStep keyedCrypto Poller.sampleKdf (fun _ => none) (fun _ => .ok 0)
      postedWorld (.process () [0]) processedWorld := by
    refine ⟨worldEnvelope, [], _, _, postedWorld_queue, ?_, ⟨?_, rfl⟩, rfl⟩
    · unfold Whisper.processQueue
      rw [postedWorld_queue]
      rfl
    · refine ⟨[], [0], ?_, ?_, rfl⟩ <;> decide +kernel
  have hpoll : WorldStep keyedCrypto Poller.sampleKdf (fun _ => none) (fun _ => .ok 0)
      processedWorld (.call () (.getFilterMessages (Poller.sampleID 6)
        [worldEnvelope.hash keyedCrypto])) polledWorld := by
    refine ⟨trivial, _, ⟨fun r hr => ?_, rfl⟩, rfl⟩
    have hget : (processedWorld.desk ()).filters.get (Poller.sampleID 6) = some 0 := by
      decide +kernel
    cases hget.symm.trans hr
    decide +kernel
  exact ⟨_, .cons hkey (.cons hfilter (.cons hpost (.cons hprocess (.cons hpoll (.nil _)))))⟩

theorem decryptSymmetric_opens {C : Crypto} {msg m : ReceivedMessage} {key : Bytes}
    (h : msg.decryptSymmetric C key = .ok m) :
    ∃ salt text, slice msg.raw 0 (msg.raw.length - aesNonceLength) = .ok text ∧
      C.aesgcmOpen key salt text = .ok m.raw := by
  unfold ReceivedMessage.decryptSymmetric at h
  split at h
  · cases h
  · obtain ⟨salt, -, h⟩ := bind_eq_ok.mp h
    split at h
    · cases h
    · obtain ⟨text, htext, h⟩ := bind_eq_ok.mp h
      split at h
      · cases h
      · rename_i decrypted hopen
        cases h
        exact ⟨salt, text, htext, hopen⟩

/-- What is sealed with a symmetric key opens to the sealed text, whatever key opens it. -/
theorem keyedCrypto_binds {params : MessageParams} {key : Bytes} (hsym : params.keySym = some key)
    (hdst : params.dst = none) (e : Envelope) : e.Binds keyedCrypto params := by
  intro rnd msg encrypted hencrypt hdata f m hdecrypt
  unfold SentMessage.encrypt at hencrypt
  rw [hsym, hdst] at hencrypt
  obtain ⟨hkey, salt, hsalt, hraw⟩ := SentMessage.encryptSymmetric_ok hencrypt
  have hsealed : e.data = [] ++ ((msg.raw ++ key) ++ salt) := hdata.trans hraw
  have hslice : slice e.data 0 (e.data.length - aesNonceLength) = .ok (msg.raw ++ key) := by
    refine slice_append hsealed rfl ?_
    simp only [hsealed, List.nil_append, List.length_append, List.length_nil, hsalt]
    omega
  unfold Envelope.decrypt at hdecrypt
  split at hdecrypt
  · cases hdecrypt
  · cases hdecrypt
  · rename_i key' hasym' hsym'
    obtain ⟨d, hd, rfl⟩ := Option.map_eq_some_iff.mp hdecrypt
    cases hopen : e.openSymmetric keyedCrypto key' with
    | error fault =>
      rw [hopen] at hd
      cases hd
    | ok d' =>
      rw [hopen] at hd
      cases hd
      obtain ⟨salt', text, htext, hplain⟩ := decryptSymmetric_opens hopen
      cases hslice.symm.trans htext
      have hlength : (msg.raw ++ key).length - 32 = msg.raw.length := by
        rw [List.length_append, hkey]
        rfl
      unfold keyedCrypto at hplain
      dsimp only at hplain
      rw [hlength, List.drop_left, List.take_left] at hplain
      split at hplain
      · exact (Except.ok.inj hplain).symm
      · cases hplain
  · cases hdecrypt

theorem mem_posts_posted {s : World Unit} {order : List Unit} {record y : PostRecord}
    {out : PostResult} (h : y ∈ (s.posted () order record out).posts) :
    y ∈ s.posts ∨ y.req = record.req ∧ y.params = record.params := by
  unfold posted at h
  split at h
  · exact .inl h
  · obtain h | h := List.mem_append.mp h
    · exact .inl h
    · rw [List.mem_singleton.mp h]
      exact .inr ⟨rfl, rfl⟩
  · split at h <;> exact .inl h

theorem posts_polledWorld {y : PostRecord} (hy : y ∈ polledWorld.posts) :
    y.req = sampleRequest ∧ y.params = composedMessage.1 := by
  obtain hy | hy := mem_posts_posted hy
  · cases hy
  · exact hy

theorem polled_was_posted_sample :
    ∃ p x, (polledWorld.desk ()).polls = [p] ∧ p.result = .ok [x] ∧ x.payload = [1, 2, 3] ∧
      ∃ y ∈ polledWorld.posts, x.hash = y.returned ∧ x.topic = y.req.topic := by
  have hcurve : keyedCrypto.RecoversPoints := by
    intro h sig pub hpub
    cases hpub
    decide +kernel
  have hone : (polledWorld.desk ()).polls.map
      (fun p => p.result.toOption.map (List.map Message.p2p)) = [some [false]] := by
    decide +kernel
  obtain ⟨p, hp, hresult⟩ := List.map_eq_singleton_iff.mp hone
  obtain ⟨messages, hmessages, hflags⟩ := Option.map_eq_some_iff.mp hresult
  obtain ⟨x, rfl, hdirect⟩ := List.map_eq_singleton_iff.mp hflags
  have hok : p.result = .ok [x] := by
    cases hr : p.result with
    | error fault =>
      rw [hr] at hmessages
      cases hmessages
    | ok messages =>
      rw [hr] at hmessages
      cases hmessages
      rfl
  obtain ⟨acts, run⟩ := polledWorld_run
  obtain ⟨y, hy, hhash, htopic, -, hopened⟩ := polled_was_posted keyedCrypto hcurve Poller.sampleKdf
    (fun _ => none) (fun _ => .ok 0) _ run () (hp ▸ List.mem_singleton_self p)
    hok (List.mem_singleton_self x) hdirect
  obtain ⟨hreq, hparams⟩ := posts_polledWorld hy
  obtain ⟨hsym, hdst, hsrc⟩ : composedMessage.1.keySym = some topicKey ∧
      composedMessage.1.dst = none ∧ composedMessage.1.src = none := by decide +kernel
  rw [hreq, hparams] at hopened
  have hsigns : keyedCrypto.Signs composedMessage.1 := by
    intro key hash signature hkey
    rw [hsrc] at hkey
    cases hkey
  have hpayload := (hopened (keyedCrypto_binds hsym hdst _) hsigns (by decide)).1
  exact ⟨p, x, hp, hok, hpayload, y, hy, hhash, htopic⟩

end World

end Whisperv6
