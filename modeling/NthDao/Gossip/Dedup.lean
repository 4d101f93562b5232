/-
  Gossip messages at one node (`nth_dao/gossip.py`).

  * `checkGossip`: what `_handle_gossip` checks of a message before it accepts it;
  * `Node.accept`: the id is marked, the message appended to the channel, handed to the
    callback and relayed;
  * `broadcast` and `directMessage` put the id of a message of the node itself into the
    queue `_seen` alone;
  * `delivered_once`: while the node sends nothing of its own and no message comes back
    under an id that the queue has dropped, each id is appended, called back and relayed
    at most once, and `_seen_set` is the set of the queue.

  A handler runs without interruption up to the sends of its relay, so that each call is
  one step. Ids are compared as Python compares them, `True` with `1` also.
-/
import NthDao.CanonicalJson
import NthDao.Py.Equal
import NthDao.Reach
import NthDao.Recent
import NthDao.Trust.Endorsement

namespace NthDao.Gossip

open Py Trust Recent

/-- `REPLAY_WINDOW_SECONDS`, in microseconds. -/
def replayWindow : ℤ := 600 * 1000000

/-- `FUTURE_DRIFT_SECONDS`, in microseconds. -/
def futureDrift : ℤ := 60 * 1000000

/-- `DEDUP_CACHE_SIZE`. -/
def dedupCacheSize : ℕ := 1000

/-- How a node is set up. -/
structure Settings where
  agentId : String
  requireSignature : Bool := true
  onMessage : Bool := true

/-- How `TeamChannel._append` ends: the line is written, or the call raises before or after. -/
inductive Write where
  | done
  | failed
  | late
  deriving DecidableEq

/-- A node, with what it did: the ids marked, appended and called back, and the relays with the
    peers that they went to. -/
structure Node where
  pinned : String → Option String := fun _ => none
  /-- `trust_graph.trusted_pubkey_for`, when there is a graph -/
  trustGraph : Option (Json → Except String (Option String)) := none
  peers : List String := []
  cache : Cache Json := {}
  marked : List Json := []
  appended : List Json := []
  called : List Json := []
  relayed : List (Json × List String) := []
  /-- what the node sent of its own -/
  sent : List (Json × List String) := []

variable (H : Host) (iso : String → Option Stamp)

/-! ## Checks -/

/-- `_within_replay_window`. -/
def withinReplayWindow (now : ℤ) (ts : Json) : Except String Bool :=
  if !truthy ts then .ok false
  else
    match ts with
    | .str s =>
      match iso s with
      | none => .ok false
      | some .aware => .error "can't subtract offset-naive and offset-aware datetimes"
      | some (.naive t) => .ok (now - t ≤ replayWindow && -futureDrift ≤ now - t)
    | _ => .error "fromisoformat: argument must be str"

/-- What the signature of a message is over. -/
def signedPayload (m : Fields) : Json := .obj
  [("msg_id", Json.getD m "msg_id" (.str "")), ("channel", Json.getD m "channel" (.str "")),
    ("from_agent", Json.getD m "from_agent" (.str "")), ("content", Json.getD m "content" (.str "")),
    ("content_type", Json.getD m "content_type" (.str "text")),
    ("reply_to", Json.getD m "reply_to" (.str "")), ("mentions", Json.getD m "mentions" (.arr [])),
    ("timestamp", Json.getD m "timestamp" (.str "")), ("metadata", Json.getD m "metadata" (.obj []))]

/-- `_verify_msg_signature`. -/
def verifyMsgSignature (m : Fields) (sig : Json) (pubkey : String) : Bool :=
  match sig with
  | .str s => verifyHex H pubkey (canonicalJson (signedPayload m)) s
  | _ => false

/-- A key of a `dict` or a `set`, up to `==`. -/
def hashKey : Json → Except String Json
  | .arr _ => .error "unhashable type: 'list'"
  | .obj _ => .error "unhashable type: 'dict'"
  | j => .ok j.ident

/-- The pinned key of an author, else the one that the trust graph gives. -/
def authorPubkey (n : Node) (author : Json) : Except String (Option String) := do
  let _ ← hashKey author
  let pinned := match author with
    | .str a => n.pinned a
    | _ => none
  match pinned, n.trustGraph with
  | some pk, _ => return some pk
  | none, none => return none
  | none, some resolve => return (← resolve author).filter (· ≠ "")

/-- `msg_id[:8]` of the log lines. -/
def shortId : Json → Except String Unit
  | .str _ => .ok ()
  | _ => .error "object is not subscriptable"

/-- A message is dropped with a log line. -/
def dropMsg (msgId : Json) : Except String (Option Bool) := do
  shortId msgId
  return none

/-- Whom the metadata names: the message is for this node alone, for all, or dropped. -/
def checkDirect (c : Settings) (m : Fields) (msgId : Json) : Except String (Option Bool) :=
  match Json.getD m "metadata" (.obj []) with
  | .obj metadata =>
    match Json.get metadata "nth_delivery_direct_to" with
    | .null => .ok (some false)
    | .str agent => if agent = c.agentId then .ok (some true) else dropMsg msgId
    | _ => dropMsg msgId
  | _ => dropMsg msgId

/-- The checks after that of the id: whether the message is direct, if it passes. -/
def vet (c : Settings) (n : Node) (now : ℤ) (m : Fields) : Except String (Option Bool) := do
  let msgId := Json.getD m "msg_id" (.str "")
  let sig := Json.getD m "sig" (.str "")
  if !(← withinReplayWindow iso now (Json.getD m "timestamp" (.str ""))) then dropMsg msgId
  else
    let pubkey := (← authorPubkey n (Json.getD m "from_agent" (.str ""))).getD ""
    let verifies := verifyMsgSignature H m sig pubkey
    if c.requireSignature then
      if !truthy sig || pubkey == "" || !verifies then dropMsg msgId else checkDirect c m msgId
    else do
      if truthy sig && pubkey != "" && !verifies then shortId msgId
      checkDirect c m msgId

/-- A message that is accepted. -/
structure Admitted where
  id : Json
  message : Fields
  direct : Bool

/-- `_handle_gossip` up to the acceptance: it drops the message (`none`) or raises. -/
def checkGossip (c : Settings) (n : Node) (now : ℤ) (data : Fields) : Except String (Option Admitted) :=
  match Json.getD data "message" (.obj []) with
  | .obj m => do
    let msgId := Json.getD m "msg_id" (.str "")
    if !truthy msgId || !truthy (Json.getD m "from_agent" (.str "")) then return none
    let key ← hashKey msgId
    if key ∈ n.cache.set then return none
    return (← vet H iso c n now m).map fun direct => ⟨key, m, direct⟩
  | _ => .error "object has no attribute 'get'"

/-! ## Acceptance -/

/-- `_validate_channel` and the parts of the file name, which `_append` takes first. -/
def channelNamed (m : Fields) : Bool :=
  (match Json.getD m "channel" (.str "team") with
    | .str ch => ch != "" && !(chars ch).contains '\\' && ch != "." && ch != ".." &&
      (chars ch).all fun c => 32 ≤ c.toNat
    | _ => false) &&
  match Json.getD m "from_agent" (.str "?") with
  | .str _ | .other _ => true
  | _ => false

/-- `_channel_append`: whether it raises. -/
def Node.channelAppend (n : Node) (id : Json) (m : Fields) (w : Write) : Node × Bool :=
  if !channelNamed m then (n, true)
  else
    match w with
    | .failed => (n, true)
    | .late => ({ n with appended := n.appended ++ [id] }, true)
    | .done => ({ n with appended := n.appended ++ [id] }, false)

/-- `_mark_seen`. -/
def Node.markSeen (n : Node) (id : Json) : Node :=
  { n with cache := n.cache.mark dedupCacheSize id, marked := n.marked ++ [id] }

/-- `_relay`. -/
def Node.relay (n : Node) (id : Json) (exclude : String) : Node :=
  { n with relayed := n.relayed ++ [(id, n.peers.filter (· != exclude))] }

/-- `_on_message`, if there is a callback. -/
def Node.callback (c : Settings) (n : Node) (id : Json) : Node :=
  if c.onMessage then { n with called := n.called ++ [id] } else n

/-- `_handle_gossip` from the acceptance on. -/
def Node.accept (c : Settings) (n : Node) (a : Admitted) (relayPeer : String) (w : Write) : Node :=
  match (n.markSeen a.id).channelAppend a.id a.message w with
  | (n, true) => n
  | (n, false) => if a.direct then n.callback c a.id else (n.callback c a.id).relay a.id relayPeer

/-- `_handle_gossip`. -/
def handleGossip (c : Settings) (n : Node) (data : Fields) (relayPeer : String) (now : ℤ)
    (w : Write) : Node :=
  match checkGossip H iso c n now data with
  | .ok (some a) => n.accept c a relayPeer w
  | _ => n

/-- `channel.send` and `_seen.append` of the two calls that send, with the id that `uuid4`
    gives, and the peers that the message goes to. -/
def Node.send (n : Node) (msgId : String) (w : Write) (recipients : List String) : Node :=
  match w with
  | .failed => n
  | .late => { n with appended := n.appended ++ [.str msgId] }
  | .done =>
    { n with
      appended := n.appended ++ [.str msgId]
      cache := n.cache.enqueue dedupCacheSize (.str msgId)
      sent := n.sent ++ [(.str msgId, recipients)] }

/-- `broadcast`. -/
def broadcast (n : Node) (msgId : String) (w : Write) : Node := n.send msgId w n.peers

/-- `direct_message`. -/
def directMessage (n : Node) (toAgent : String) (relayIfUnknown : Bool) (msgId : String)
    (w : Write) : Node :=
  n.send msgId w
    (if toAgent ∈ n.peers then [toAgent] else if relayIfUnknown then n.peers else [])

/-! ## Runs -/

/-- What happens at a node. -/
inductive Act where
  | broadcast (msgId : String) (w : Write)
  | directMessage (toAgent : String) (relayIfUnknown : Bool) (msgId : String) (w : Write)
  /-- a gossip message from a peer -/
  | gossip (data : Fields) (relayPeer : String) (now : ℤ) (w : Write)
  /-- connections, pins and the trust graph change -/
  | reconfigure (peers : List String) (pinned : String → Option String)
      (trustGraph : Option (Json → Except String (Option String)))

/-- One call. -/
def Node.step (c : Settings) (n : Node) : Act → Option Node
  | .broadcast msgId w => some (Gossip.broadcast n msgId w)
  | .directMessage toAgent relayIfUnknown msgId w =>
    some (Gossip.directMessage n toAgent relayIfUnknown msgId w)
  | .gossip data relayPeer now w => some (handleGossip H iso c n data relayPeer now w)
  | .reconfigure peers pinned trustGraph =>
    some { n with peers := peers, pinned := pinned, trustGraph := trustGraph }

/-- No message of the node itself gets as far as the channel, and none that passes the checks
    comes under an id that was marked before `DEDUP_CACHE_SIZE` others. -/
def Node.Quiet (c : Settings) (n : Node) : Act → Prop
  | .broadcast _ w => w = .failed
  | .directMessage _ _ _ w => w = .failed
  | .gossip data _ now _ => ∀ m key direct, Json.getD data "message" (.obj []) = .obj m →
      hashKey (Json.getD m "msg_id" (.str "")) = .ok key → vet H iso c n now m = .ok (some direct) →
      key ∈ n.marked → key ∈ n.marked.rtake dedupCacheSize
  | .reconfigure .. => True

variable {H iso} {c : Settings} {n n' : Node}

theorem checkGossip_eq_ok {now : ℤ} {data : Fields} {a : Admitted} :
    checkGossip H iso c n now data = .ok (some a) ↔
      Json.getD data "message" (.obj []) = .obj a.message ∧
      truthy (Json.getD a.message "msg_id" (.str "")) = true ∧
      truthy (Json.getD a.message "from_agent" (.str "")) = true ∧
      hashKey (Json.getD a.message "msg_id" (.str "")) = .ok a.id ∧ a.id ∉ n.cache.set ∧
      vet H iso c n now a.message = .ok (some a.direct) := by
  unfold checkGossip
  cases hm : Json.getD data "message" (.obj []) with
  | obj m =>
    obtain ⟨id, m', direct⟩ := a
    simp only [Json.obj.injEq]
    by_cases hnamed : truthy (Json.getD m "msg_id" (.str "")) = true ∧
        truthy (Json.getD m "from_agent" (.str "")) = true
    · rw [if_neg (by simp [hnamed]), bind_eq_ok]
      constructor
      · rintro ⟨key, hkey, h⟩
        by_cases hseen : key ∈ n.cache.set
        · rw [if_pos hseen] at h
          cases h
        · rw [if_neg hseen, bind_eq_ok] at h
          obtain ⟨v, hv, h⟩ := h
          obtain ⟨d, rfl, h⟩ := Option.map_eq_some_iff.1 (pure_eq_ok.1 h)
          cases h
          exact ⟨rfl, hnamed.1, hnamed.2, hkey, hseen, hv⟩
      · rintro ⟨rfl, -, -, hkey, hseen, hv⟩
        refine ⟨id, hkey, ?_⟩
        rw [if_neg hseen, hv]
        rfl
    · have hempty : (!truthy (Json.getD m "msg_id" (.str "")) ||
          !truthy (Json.getD m "from_agent" (.str ""))) = true := by
        rw [not_and_or, Bool.not_eq_true, Bool.not_eq_true] at hnamed
        rcases hnamed with h | h <;> simp [h]
      rw [if_pos hempty]
      constructor
      · intro h
        cases h
      · rintro ⟨rfl, h₁, h₂, -⟩
        exact absurd ⟨h₁, h₂⟩ hnamed
  | _ =>
    constructor
    · intro h
      cases h
    · rintro ⟨h, -⟩
      cases h

/-! ## The invariant -/

/-- The cache tracks the ids that were marked, and nothing else was done with any message. -/
structure Node.Sound (n : Node) : Prop where
  tracks : n.cache.Tracks dedupCacheSize n.marked
  appended : n.appended.Sublist n.marked
  called : n.called.Sublist n.marked
  relayed : (n.relayed.map Prod.fst).Sublist n.marked

theorem Node.sound_start : ({} : Node).Sound :=
  ⟨.start _, .slnil, .slnil, .slnil⟩

theorem Node.Sound.markSeen (h : n.Sound) {id : Json} (hid : id ∉ n.marked) :
    (n.markSeen id).Sound where
  tracks := h.tracks.mark (by decide) hid
  appended := h.appended.trans (List.sublist_append_left _ _)
  called := h.called.trans (List.sublist_append_left _ _)
  relayed := h.relayed.trans (List.sublist_append_left _ _)

/-- What an acceptance does. -/
theorem Node.accept_spec (n : Node) (a : Admitted) (relayPeer : String) (w : Write) :
    (n.accept c a relayPeer w).cache = (n.markSeen a.id).cache ∧
    (n.accept c a relayPeer w).marked = n.marked ++ [a.id] ∧
    ((n.accept c a relayPeer w).appended = n.appended ∨
      (n.accept c a relayPeer w).appended = n.appended ++ [a.id]) ∧
    ((n.accept c a relayPeer w).called = n.called ∨
      (n.accept c a relayPeer w).called = n.called ++ [a.id]) ∧
    ((n.accept c a relayPeer w).relayed.map Prod.fst = n.relayed.map Prod.fst ∨
      (n.accept c a relayPeer w).relayed.map Prod.fst = n.relayed.map Prod.fst ++ [a.id]) := by
  unfold Node.accept channelAppend
  by_cases hnamed : channelNamed a.message = true
  · rw [if_neg (by simp [hnamed])]
    cases w with
    | failed => exact ⟨rfl, rfl, .inl rfl, .inl rfl, .inl rfl⟩
    | late => exact ⟨rfl, rfl, .inr rfl, .inl rfl, .inl rfl⟩
    | done =>
      cases hd : a.direct <;> cases hc : c.onMessage <;>
        simp [callback, relay, hc, Node.markSeen]
  · rw [if_pos (by simpa using hnamed)]
    exact ⟨rfl, rfl, .inl rfl, .inl rfl, .inl rfl⟩

/-- **An acceptance under a new id keeps the invariant.** -/
theorem Node.Sound.accept (h : n.Sound) {a : Admitted} (hid : a.id ∉ n.marked) (relayPeer : String)
    (w : Write) : (n.accept c a relayPeer w).Sound := by
  have grow : ∀ {l l' : List Json}, l.Sublist n.marked → (l' = l ∨ l' = l ++ [a.id]) →
      l'.Sublist (n.marked ++ [a.id]) := by
    rintro l l' hl (rfl | rfl)
    · exact hl.trans (List.sublist_append_left _ _)
    · exact hl.append_right [a.id]
  obtain ⟨hcache, hmarked, happended, hcalled, hrelayed⟩ := n.accept_spec (c := c) a relayPeer w
  exact {
    tracks := by
      rw [hcache, hmarked]
      exact h.tracks.mark (by decide) hid
    appended := hmarked ▸ grow h.appended happended
    called := hmarked ▸ grow h.called hcalled
    relayed := hmarked ▸ grow h.relayed hrelayed }

/-- **A quiet call keeps the invariant.** -/
theorem Node.Sound.step (h : n.Sound) {a : Act} (hq : n.Quiet H iso c a)
    (hs : n.step H iso c a = some n') : n'.Sound := by
  cases a with
  | broadcast msgId w =>
    cases hs
    cases (show w = .failed from hq)
    exact h
  | directMessage toAgent relayIfUnknown msgId w =>
    cases hs
    cases (show w = .failed from hq)
    exact h
  | gossip data relayPeer now w =>
    cases hs
    unfold handleGossip
    split
    · rename_i a hcheck
      obtain ⟨hmsg, -, -, hkey, hseen, hvet⟩ := checkGossip_eq_ok.1 hcheck
      refine h.accept (fun hmem => hseen ?_) relayPeer w
      exact h.tracks.mem_set.2 (hq a.message a.id a.direct hmsg hkey hvet hmem)
    · exact h
  | reconfigure peers pinned trustGraph =>
    cases hs
    exact ⟨h.tracks, h.appended, h.called, h.relayed⟩

/-- **A message is delivered at most once**, in every run whose calls are quiet: each id is
    appended, called back and relayed at most once, and `_seen_set` is the set of `_seen`. -/
theorem delivered_once (h : Runs.Reach (Node.step H iso c) (Node.Quiet H iso c) {} n) :
    n.appended.Nodup ∧ n.called.Nodup ∧ (n.relayed.map Prod.fst).Nodup ∧
      (∀ id, id ∈ n.cache.set ↔ id ∈ n.cache.queue) ∧ n.cache.queue.length ≤ dedupCacheSize := by
  have hs : n.Sound := h.invariant Node.sound_start fun _ _ _ hs hq hstep => hs.step hq hstep
  refine ⟨hs.tracks.nodup.sublist hs.appended, hs.tracks.nodup.sublist hs.called,
    hs.tracks.nodup.sublist hs.relayed, fun id => ?_, hs.tracks.length_le⟩
  rw [hs.tracks.set, List.mem_toFinset]

/-! ## Messages that come twice -/

/-- A message without its signature. -/
def unsignedMessage (agentId id : String) : Fields :=
  [("msg_id", .str id), ("channel", .str "team"), ("from_agent", .str agentId),
    ("content", .str ""), ("content_type", .str "text"), ("reply_to", .str ""), ("mentions", .arr []),
    ("timestamp", .str "t"), ("metadata", .obj [])]

/-- The message, signed by the key. -/
def message (H : Host) (k : H.SecretKey) (agentId id : String) : Fields :=
  unsignedMessage agentId id ++ [("sig", .str (hex (H.sign k
    ((canonicalJson (.obj (unsignedMessage agentId id))).getD []))))]

/-- The peer sends the message. -/
def incoming (H : Host) (k : H.SecretKey) (agentId id : String) : Act :=
  .gossip [("message", .obj (message H k agentId id))] "peer" 0 .done

/-- Every text is the time 0. -/
def epoch (_ : String) : Option Stamp := some (.naive 0)

/-- The node knows the key of the agent. -/
def knows (H : Host) (k : H.SecretKey) (agentId : String) : Act :=
  .reconfigure [] (fun a => if a = agentId then some (hex (H.pubkey k)) else none) none

section

variable {k : H.SecretKey} {agentId id : String}

theorem vet_message (hpin : n.pinned agentId = some (hex (H.pubkey k))) :
    vet H epoch c n 0 (message H k agentId id) = .ok (some false) := by
  have hsig : verifyMsgSignature H (message H k agentId id)
      (Json.getD (message H k agentId id) "sig" (.str "")) (hex (H.pubkey k)) = true :=
    verifyHex_canonicalJson H k (canonicalJson_of_encodable rfl)
  have hkey : authorPubkey n (.str agentId) = .ok (some (hex (H.pubkey k))) := by
    simp only [authorPubkey, hpin]
    rfl
  have htruthy : truthy (Json.getD (message H k agentId id) "sig" (.str "")) = true :=
    bne_iff_ne.2 (hex_ne_empty (sign_ne_nil H k _))
  have hpubkey : hex (H.pubkey k) ≠ "" := hex_ne_empty (pubkey_ne_nil H k)
  have hauthor : Json.getD (message H k agentId id) "from_agent" (.str "") = .str agentId := rfl
  have hdirect : checkDirect c (message H k agentId id) (.str id) = .ok (some false) := rfl
  have hid : Json.getD (message H k agentId id) "msg_id" (.str "") = .str id := rfl
  have hwindow : withinReplayWindow epoch 0
      (Json.getD (message H k agentId id) "timestamp" (.str "")) = .ok true := rfl
  unfold vet
  rw [hwindow, hauthor, hkey]
  simp only [ok_bind, Option.getD_some, hsig, htruthy, hid, hdirect, hpubkey, beq_iff_eq]
  cases c.requireSignature <;> simp [hpubkey]

/-- The message is accepted unless its id is in the set. -/
theorem step_incoming (hpin : n.pinned agentId = some (hex (H.pubkey k))) (hagent : agentId ≠ "")
    (hid : id ≠ "") (hseen : .str id ∉ n.cache.set) :
    n.step H epoch c (incoming H k agentId id) =
      some (n.accept c ⟨.str id, message H k agentId id, false⟩ "peer" .done) := by
  have hcheck : checkGossip H epoch c n 0 [("message", .obj (message H k agentId id))] =
      .ok (some ⟨.str id, message H k agentId id, false⟩) :=
    checkGossip_eq_ok.2 ⟨rfl, bne_iff_ne.2 hid, bne_iff_ne.2 hagent, rfl, hseen, vet_message hpin⟩
  simp only [Node.step, incoming, handleGossip, hcheck]

theorem appended_incoming :
    (n.accept c ⟨.str id, message H k agentId id, false⟩ "peer" .done).appended =
      n.appended ++ [.str id] := by
  have hnamed : channelNamed (message H k agentId id) = true := rfl
  rw [Node.accept, Node.channelAppend, if_neg (by simp [hnamed])]
  cases h : c.onMessage <;> simp [Node.callback, Node.relay, Node.markSeen, h]

theorem pinned_incoming :
    (n.accept c ⟨.str id, message H k agentId id, false⟩ "peer" .done).pinned = n.pinned := by
  have hnamed : channelNamed (message H k agentId id) = true := rfl
  rw [Node.accept, Node.channelAppend, if_neg (by simp [hnamed])]
  cases h : c.onMessage <;> simp [Node.callback, Node.relay, Node.markSeen, h]

end

/-- The ids of a flood. -/
def floodId (i : ℕ) : String := String.ofList (List.replicate (i + 1) 'x')

theorem floodId_injective : Function.Injective floodId := by
  intro i j h
  have := congrArg String.length h
  simpa [floodId] using this

theorem floodId_ne (i : ℕ) : floodId i ≠ "" := by
  intro h
  have := congrArg String.length h
  simp [floodId] at this

/-- Any number of messages of an author come in, each once. -/
theorem reach_flood (k : H.SecretKey) (N : ℕ) : ∃ n : Node,
    Runs.Reach (Node.step H epoch c) (Node.Quiet H epoch c) {} n ∧
    n.pinned "a" = some (hex (H.pubkey k)) ∧
    n.marked = (List.range N).map (fun i => .str (floodId i)) ∧
    n.appended = (List.range N).map (fun i => .str (floodId i)) := by
  induction N with
  | zero => exact ⟨_, Runs.Reach.start.step (a := knows H k "a") trivial rfl,
      by simp, rfl, rfl⟩
  | succ N ih =>
    obtain ⟨n, hn, hpin, hmarked, happ⟩ := ih
    have hnew : Json.str (floodId N) ∉ n.marked := by
      rw [hmarked, List.mem_map]
      rintro ⟨i, hi, he⟩
      have := floodId_injective (Json.str.inj he)
      exact absurd (List.mem_range.1 hi) (by omega)
    have hseen : Json.str (floodId N) ∉ n.cache.set := by
      have hs : n.Sound := hn.invariant Node.sound_start fun _ _ _ hs hq hstep => hs.step hq hstep
      intro h
      exact hnew (List.mem_of_mem_drop (hs.tracks.mem_set.1 h))
    refine ⟨_, hn.step (a := incoming H k "a" (floodId N)) ?_
      (step_incoming hpin (by decide) (floodId_ne N) hseen), ?_, ?_, ?_⟩
    · rintro m key direct hm hkey - hmem
      cases hm
      cases hkey
      exact absurd hmem hnew
    · rw [pinned_incoming, hpin]
    · rw [(n.accept_spec _ _ _).2.1, hmarked, List.range_succ, List.map_append]
      rfl
    · rw [appended_incoming, happ, List.range_succ, List.map_append]
      rfl

/-- The theorem on a node that has seen two messages. -/
theorem delivered_once_flood : ∃ n : Node, n.appended.length = 2 ∧ n.appended.Nodup := by
  obtain ⟨n, hn, -, -, happ⟩ := reach_flood (H := checksumHost) (c := ⟨"b", true, true⟩) (1 : UInt8) 2
  exact ⟨n, by rw [happ]; rfl, (delivered_once hn).1⟩

/-- The echo of a broadcast is appended again. -/
theorem echo_appended (k : H.SecretKey) : ∃ n n' : Node,
    Runs.Reach (Node.step H epoch c) (fun _ _ => True) {} n ∧
    .str "m" ∈ n.cache.queue ∧ .str "m" ∉ n.cache.set ∧
    Runs.Reach (Node.step H epoch c) (fun _ _ => True) {} n' ∧ n'.appended = [.str "m", .str "m"] := by
  have hsent : Runs.Reach (Node.step H epoch c) (fun _ _ => True) {} _ :=
    (Runs.Reach.start.step (a := knows H k "a") trivial rfl).step
      (a := .broadcast "m" .done) trivial rfl
  have hparts := Cache.enqueue_parts (n := dedupCacheSize) (c := ({} : Cache Json)) (x := .str "m")
    (Finset.notMem_empty _)
  refine ⟨_, _, hsent, hparts.1, hparts.2, hsent.step (a := incoming H k "a" "m") trivial
    (step_incoming (by simp [broadcast, Node.send]) (by decide) (by decide) (Finset.notMem_empty _)), ?_⟩
  rw [appended_incoming]
  rfl

/-- A message that comes again after a thousand others is appended again. -/
theorem turnover_appended (k : H.SecretKey) : ∃ n n' : Node,
    Runs.Reach (Node.step H epoch c) (Node.Quiet H epoch c) {} n ∧
    n.step H epoch c (incoming H k "a" (floodId 0)) = some n' ∧ ¬ n'.appended.Nodup := by
  obtain ⟨n, hn, hpin, hmarked, happ⟩ := reach_flood (c := c) k (dedupCacheSize + 1)
  have hs : n.Sound := hn.invariant Node.sound_start fun _ _ _ hs hq hstep => hs.step hq hstep
  have hcons : n.marked = .str (floodId 0) ::
      ((List.range dedupCacheSize).map Nat.succ).map (fun i => .str (floodId i)) := by
    rw [hmarked, List.range_succ_eq_map, List.map_cons]
  have hdropped : n.marked.rtake dedupCacheSize =
      ((List.range dedupCacheSize).map Nat.succ).map (fun i => .str (floodId i)) := by
    rw [List.rtake, hcons]
    simp
  have hseen : Json.str (floodId 0) ∉ n.cache.set := by
    have hnodup := hs.tracks.nodup
    rw [hcons] at hnodup
    rw [hs.tracks.mem_set, hdropped]
    exact (List.nodup_cons.1 hnodup).1
  refine ⟨n, _, hn, step_incoming hpin (by decide) (floodId_ne 0) hseen, ?_⟩
  rw [appended_incoming, happ, ← hmarked, hcons]
  simp

/-- **A message is delivered twice**: the echo of a broadcast, which also parts queue and set, and a
    message that comes again when a thousand others have come since. -/
theorem delivered_twice :
    (∃ n n' : Node, Runs.Reach (Node.step checksumHost epoch ⟨"a", true, true⟩) (fun _ _ => True) {} n ∧
      .str "m" ∈ n.cache.queue ∧ .str "m" ∉ n.cache.set ∧
      Runs.Reach (Node.step checksumHost epoch ⟨"a", true, true⟩) (fun _ _ => True) {} n' ∧
      n'.appended = [.str "m", .str "m"]) ∧
    ∃ (n n' : Node) (a : Act), Runs.Reach (Node.step checksumHost epoch ⟨"b", true, true⟩)
        (Node.Quiet checksumHost epoch ⟨"b", true, true⟩) {} n ∧
      n.step checksumHost epoch ⟨"b", true, true⟩ a = some n' ∧ ¬ n'.appended.Nodup := by
  obtain ⟨n, n', hn, hstep, hdup⟩ := turnover_appended (H := checksumHost) (c := ⟨"b", true, true⟩)
    (1 : UInt8)
  exact ⟨echo_appended (H := checksumHost) (1 : UInt8), n, n', _, hn, hstep, hdup⟩

end NthDao.Gossip
