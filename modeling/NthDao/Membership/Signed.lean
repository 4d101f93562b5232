/-
  The signed team configuration (`nth_dao/membership.py`).

  * `load_made_iff`: against files of a party without the key of the owner, `load_config`
    returns what the owner signed, as long as the file names the owner;
  * `Op.Idle`: the operation changes nothing that is signed;
  * `World.Loads`: the configuration is accepted; `Loads.step`: it stays so while managers
    without a key do nothing but such operations;
  * `signed_config`: both.
-/
import NthDao.Membership.Authority
import NthDao.Py.Parsed

namespace NthDao.Membership

open Py Trust Team

variable {H : Host} {f : Fresh}

/-! ## What the owner signed -/

theorem wf_listOf {v : Json} (hv : v.wf = true) {xs : List Json} (h : listOf v = some xs) :
    ∀ x ∈ xs, x.wf = true := by
  cases v with
  | arr ys =>
    cases h
    exact Json.wf_arr.1 hv
  | obj kvs =>
    cases h
    intro x hx
    obtain ⟨p, -, rfl⟩ := List.mem_map.1 hx
    rfl
  | str s =>
    cases h
    intro x hx
    obtain ⟨c, -, rfl⟩ := List.mem_map.1 hx
    rfl
  | _ => cases h

theorem wf_pairOf {v : Json} (hv : v.wf = true) {p : String × Json} (h : pairOf v = some p) :
    p.2.wf = true := by
  unfold pairOf at h
  split at h
  · rename_i k w hl
    cases h
    exact wf_listOf hv hl w (by simp)
  · cases h

theorem wf_mapM_pairOf {xs : List Json} (hxs : ∀ x ∈ xs, x.wf = true) {ps : Fields}
    (h : xs.mapM pairOf = some ps) : ∀ p ∈ ps, p.2.wf = true := by
  induction xs generalizing ps with
  | nil =>
    cases h
    exact List.forall_mem_nil _
  | cons x xs ih =>
    rw [List.forall_mem_cons] at hxs
    simp only [List.mapM_cons, Option.bind_eq_bind, Option.bind_eq_some_iff] at h
    obtain ⟨p, hp, qs, hqs, heq⟩ := h
    cases heq
    exact List.forall_mem_cons.2 ⟨wf_pairOf hxs.1 hp, ih hxs.2 hqs⟩

theorem wf_dictValue {v : Json} (hv : v.wf = true) {kvs : Fields} (h : dictValue v = some kvs) :
    (Json.obj kvs).wf = true := by
  cases v with
  | obj ys =>
    cases h
    exact hv
  | _ =>
    simp only [dictValue, Option.bind_eq_bind, Option.bind_eq_some_iff] at h
    obtain ⟨xs, hxs, ps, hps, heq⟩ := h
    cases heq
    exact wf_dictOf (wf_mapM_pairOf (wf_listOf hv hxs) hps)

theorem wf_getD {data : Fields} (h : (Json.obj data).wf = true) (k : String) {d : Json}
    (hd : d.wf = true) : (Json.getD data k d).wf = true := by
  rw [Json.getD]
  cases hl : Json.lookup data k with
  | none => exact hd
  | some v => exact (Json.wf_obj.1 h).2 _ (Json.mem_of_lookup hl)

/-- What is read of a file can be signed in one way. -/
theorem wf_signableDict {data : Json} (hdata : data.wf = true) {c : TeamConfig}
    (h : TeamConfig.fromDict f data = some c) : c.signableDict.wf = true := by
  cases data with
  | obj kvs =>
    simp only [TeamConfig.fromDict, Option.bind_eq_bind] at h
    split at h
    · simp only [Option.bind_eq_some_iff] at h
      obtain ⟨joinPolicy, -, adminIds, hadmins, memberIds, hmembers, roles, hroles, heq⟩ := h
      cases heq
      rw [TeamConfig.signableDict, Json.wf_obj]
      refine ⟨by simp, ?_⟩
      simp only [List.mem_cons, List.not_mem_nil, or_false, forall_eq_or_imp, forall_eq]
      exact ⟨wf_getD hdata _ rfl, wf_getD hdata _ rfl, rfl, wf_getD hdata _ rfl,
        Json.wf_arr.2 (wf_listOf (wf_getD hdata _ rfl) hadmins),
        Json.wf_arr.2 (wf_listOf (wf_getD hdata _ rfl) hmembers),
        wf_dictValue (wf_getD hdata _ rfl) hroles, wf_getD hdata _ rfl, wf_getD hdata _ rfl,
        wf_getD hdata _ rfl, wf_getD hdata _ rfl⟩
    · cases h
  | _ => cases h

theorem wf_configOf {file : Option Json} (hfile : ∀ v ∈ file, v.wf = true) :
    (configOf f file).signableDict.wf = true := by
  cases file with
  | none => rfl
  | some data =>
    cases h : TeamConfig.fromDict f data with
    | none =>
      rw [configOf, Option.bind_some, h]
      rfl
    | some c =>
      rw [configOf, Option.bind_some, h]
      exact wf_signableDict (hfile data rfl) h

/-- The owner key of what is signed is signed. -/
theorem ownerPubkey_of_canonicalJson {c c' : TeamConfig} (hc : c.signableDict.wf = true)
    (hc' : c'.signableDict.wf = true) {m : Bytes} (h : canonicalJson c.signableDict = some m)
    (h' : canonicalJson c'.signableDict = some m) {key : String} (hkey : c'.ownerPubkey = .str key) :
    c.ownerPubkey = .str key := by
  have hnorm := canonicalJson_injective hc hc' h h'
  have hget : ∀ d : TeamConfig, d.signableDict.wf = true →
      Json.get d.signableDict.norm.fields "owner_pubkey" = d.ownerPubkey.norm := by
    intro d hd
    exact Json.get_norm (Json.wf_obj.1 hd).1 _
  have hsame := hget c hc
  rw [hnorm, hget c' hc', hkey] at hsame
  cases hown : c.ownerPubkey with
  | str s =>
    rw [hown] at hsame
    exact hsame.symm
  | _ =>
    rw [hown] at hsame
    simp [Json.norm] at hsame

/-- `owner_pubkey` is the key. -/
def TeamConfig.Names (c : TeamConfig) (key : Bytes) : Prop :=
  ∃ s, c.ownerPubkey = .str s ∧ fromhex s = some key

/-- The bytes are those of a configuration that is signed under the key. -/
def Payload (key : Bytes) (m : Bytes) : Prop :=
  ∃ c : TeamConfig, c.signableDict.wf = true ∧ canonicalJson c.signableDict = some m ∧
    c.ownerPubkey = .str (hex key)

theorem truthy_ownerSig {c : TeamConfig} (h : verifyConfigSignature H c = true) :
    truthy c.ownerSig = true := by
  unfold verifyConfigSignature at h
  split at h
  · rename_i pubkey sig _ hsig
    rw [hsig]
    refine bne_iff_ne.2 ?_
    rintro rfl
    unfold verifyHex at h
    split at h
    · rename_i pk sg _ _ hhex
      cases hhex
      simp at h
    · cases h
  · cases h

/-- **What `load_config` returns is what the owner signed iff the file names the owner**, if its
    signature verifies: `made` are the payloads that the holder of the key signed, and a signature
    in the file that verifies under the key is over one of them. -/
theorem load_made_iff {k : H.SecretKey} {made : Bytes → Prop}
    (hmade : ∀ m, made m → Payload (H.pubkey k) m) {file : TeamFile}
    (hwf : ∀ data, file = .ok data → ∀ v ∈ data, v.wf = true)
    (hforge : ∀ data, file = .ok data → (configOf f data).Names (H.pubkey k) →
      verifyConfigSignature H (configOf f data) = true →
      ∃ m, canonicalJson (configOf f data).signableDict = some m ∧ made m) :
    (∀ c, loadConfig H f file = .ok c → ∃ m, canonicalJson c.signableDict = some m ∧ made m) ↔
      ∀ data, file = .ok data → truthy (configOf f data).ownerPubkey = true ∧
        (verifyConfigSignature H (configOf f data) = true →
          (configOf f data).Names (H.pubkey k)) := by
  have hnames : ∀ data, file = .ok data →
      (∃ m, canonicalJson (configOf f data).signableDict = some m ∧ made m) →
      (configOf f data).ownerPubkey = .str (hex (H.pubkey k)) := by
    rintro data hfile ⟨m, hm, hmm⟩
    obtain ⟨c', hc', hm', hown⟩ := hmade m hmm
    exact ownerPubkey_of_canonicalJson (wf_configOf (hwf data hfile)) hc' hm hm' hown
  constructor
  · intro h data hfile
    have hload : ∀ c, loadConfig H f file = .ok c → c = configOf f data →
        c.ownerPubkey = .str (hex (H.pubkey k)) := by
      rintro c hc rfl
      exact hnames data hfile (h _ hc)
    constructor
    · by_contra hempty
      refine hempty ?_
      rw [hload _ (loadConfig_eq_ok.2 ⟨data, hfile, rfl, fun ht => absurd ht hempty⟩) rfl]
      exact bne_iff_ne.2 (hex_ne_empty (pubkey_ne_nil H k))
    · intro hver
      refine ⟨_, hload _ (loadConfig_eq_ok.2 ⟨data, hfile, rfl, fun _ => ?_⟩) rfl, fromhex_hex _⟩
      exact ⟨truthy_ownerSig hver, hver⟩
  · intro h c hc
    obtain ⟨data, hfile, rfl, hver⟩ := loadConfig_eq_ok.1 hc
    obtain ⟨htruthy, hnamed⟩ := h data hfile
    exact hforge data hfile (hnamed (hver htruthy).2) (hver htruthy).2

/-! ## Operations without a key -/

variable {reqs reqs' : Requests} {c c' : TeamConfig} {op : Op}

variable (H) in
/-- The operation raises, or it saves nothing or what it loaded. -/
def Op.Idle (reqs : Requests) (f : Fresh) (c : TeamConfig) (op : Op) : Prop :=
  (∃ e, op.apply H reqs f c = .error e) ∨
  match op with
  | .initTeam teamName policy joinToken adminIds metadata =>
    c.teamName = .str teamName ∧ policy = c.joinPolicy.value ∧ c.joinToken = .str joinToken ∧
      (∀ a ∈ adminIds, .str a ∈ c.adminIds ∧ .str a ∈ c.memberIds ∧
        (Json.lookup c.roles a).isSome = true) ∧
      ∀ p ∈ metadata, Json.lookup c.metadata.fields p.1 = some p.2
  | .setPolicy policy joinToken _ =>
    policy = c.joinPolicy.value ∧ (joinToken = "" ∨ c.joinToken = .str joinToken)
  | .addAdmin agentId _ => .str agentId ∈ c.adminIds ∧ .str agentId ∈ c.memberIds ∧
      Json.lookup c.roles agentId = some (.str "admin")
  | .removeAdmin agentId _ => .str agentId ∉ c.adminIds ∧
      Json.lookup c.roles agentId ≠ some (.str "admin")
  | .setRole agentId role _ => Json.lookup c.roles agentId = some (.str role) ∧
      (.str agentId ∈ c.adminIds ↔ role = "owner" ∨ role = "admin")
  | .ensureMember agentId token =>
    (.str agentId ∈ c.memberIds ∧ (Json.lookup c.roles agentId).isSome = true) ∨
      ∃ reason, canJoin H reqs c.toTeam agentId token = .ok (false, reason)
  | .requestJoin agentId _ _ =>
    .str agentId ∈ c.memberIds ∨ c.joinPolicy ≠ .open ∧ c.joinPolicy ≠ .token
  | .approve agentId _ _ => .str agentId ∈ c.memberIds ∧ (Json.lookup c.roles agentId).isSome = true
  | .reject .. => True
  | .invite agentId _ _ _ _ =>
    .str agentId ∈ c.memberIds ∧ (Json.lookup c.roles agentId).isSome = true
  | .removeMember agentId _ => .str agentId ∉ c.adminIds ∧ .str agentId ∉ c.memberIds ∧
      Json.lookup c.roles agentId = none

theorem insert_eq_self {kvs : Fields} {k : String} {v : Json} (h : Json.lookup kvs k = some v) :
    Json.insert kvs k v = kvs := by
  induction kvs with
  | nil => cases h
  | cons p kvs ih =>
    obtain ⟨l, w⟩ := p
    rw [Json.lookup_cons] at h
    rw [Json.insert]
    by_cases hl : l = k
    · subst hl
      rw [if_pos rfl, Option.some.injEq] at h
      simp [h]
    · rw [if_neg hl] at h
      simp [hl, ih h]

theorem foldl_insert_eq_self {old : Fields} {kvs : Fields}
    (h : ∀ p ∈ kvs, Json.lookup old p.1 = some p.2) :
    kvs.foldl (fun kvs p => Json.insert kvs p.1 p.2) old = old := by
  induction kvs with
  | nil => rfl
  | cons p kvs ih =>
    obtain ⟨hp, hrest⟩ := List.forall_mem_cons.1 h
    rw [List.foldl_cons, insert_eq_self hp, ih hrest]

theorem join_eq_self {t : Team} {agentId : String} (hmem : .str agentId ∈ t.memberIds)
    (hrole : (Json.lookup t.roles agentId).isSome = true) : t.join agentId = t := by
  rw [join, addId, setDefault, if_pos hmem, if_pos hrole]

theorem initAdmins_eq_self {t : Team} {adminIds : List String}
    (h : ∀ a ∈ adminIds, .str a ∈ t.adminIds ∧ .str a ∈ t.memberIds ∧
      (Json.lookup t.roles a).isSome = true) : t.initAdmins adminIds = t := by
  induction adminIds with
  | nil => rfl
  | cons a adminIds ih =>
    obtain ⟨⟨hadmin, hmem, hrole⟩, hrest⟩ := List.forall_mem_cons.1 h
    rw [initAdmins, initAdmin, addId, addId, setDefault, if_pos hadmin, if_pos hmem, if_pos hrole,
      ih hrest]

theorem popRole_eq_self {roles : Fields} {agentId : String} (h : Json.lookup roles agentId = none) :
    popRole roles agentId = roles := by
  rw [popRole, List.filter_eq_self]
  intro p hp
  refine bne_iff_ne.2 fun he => ?_
  exact Json.lookup_eq_none_iff.1 h (List.mem_map.2 ⟨p, hp, he⟩)

/-- **An idle operation saves what it loaded.** -/
theorem apply_idle (h : op.apply H reqs f c = .ok (reqs', some c')) (hidle : op.Idle H reqs f c) :
    c' = c := by
  rcases hidle with ⟨e, he⟩ | hidle
  · cases he.symm.trans h
  have hkeep : ∀ t : Team, op.onTeam H reqs f c.toTeam = .ok (reqs', some t) → t = c.toTeam := by
    intro t ht
    cases op with
    | initTeam teamName policy joinToken adminIds metadata =>
      obtain ⟨-, rfl, htoken, hadmins, -⟩ := hidle
      simp only [Op.onTeam, Team.init, normalizePolicy_value, ok_bind, pure_bind] at ht
      cases ht
      rw [← htoken]
      exact initAdmins_eq_self hadmins
    | setPolicy policy joinToken actorId =>
      obtain ⟨rfl, htoken⟩ := hidle
      simp only [Op.onTeam, Team.setPolicy, normalizePolicy_value, ok_bind, bind_eq_ok, pure_eq_ok] at ht
      obtain ⟨_, ⟨_, -, rfl⟩, heq⟩ := ht
      cases heq
      rcases htoken with htoken | htoken
      · rw [if_pos htoken]
      · split_ifs
        · rfl
        · rw [← htoken]
    | addAdmin agentId actorId =>
      obtain ⟨hadmin, hmem, hrole⟩ := hidle
      simp only [Op.onTeam, Team.addAdmin, bind_eq_ok, pure_eq_ok] at ht
      obtain ⟨_, ⟨_, -, rfl⟩, heq⟩ := ht
      cases heq
      rw [addId, addId, if_pos hadmin, if_pos hmem, insert_eq_self (v := .str TeamRole.admin.value) hrole]
    | removeAdmin agentId actorId =>
      obtain ⟨hadmin, hrole⟩ := hidle
      simp only [Op.onTeam, Team.removeAdmin, bind_eq_ok, pure_eq_ok] at ht
      obtain ⟨_, ⟨_, -, rfl⟩, heq⟩ := ht
      cases heq
      have hother : Json.lookup c.roles agentId ≠ some (.str TeamRole.admin.value) := hrole
      rw [List.erase_of_not_mem hadmin, if_neg hother]
    | setRole agentId role actorId =>
      obtain ⟨hrole, hadmin⟩ := hidle
      simp only [Op.onTeam, Team.setRole, bind_eq_ok, pure_eq_ok] at ht
      obtain ⟨_, ⟨_, -, r, hr, _, -, _, -, rfl⟩, heq⟩ := ht
      cases heq
      rw [normalizeRole, expect_eq_ok, ofValue_eq_some] at hr
      subst hr
      rw [insert_eq_self hrole]
      have hup : (r = .owner ∨ r = .admin) ↔ .str agentId ∈ c.adminIds := by
        rw [hadmin]
        cases r <;> simp [TeamRole.value]
      by_cases hmem : .str agentId ∈ c.adminIds
      · rw [if_pos (hup.2 hmem), addId, if_pos hmem]
      · rw [if_neg (mt hup.1 hmem), List.erase_of_not_mem hmem]
    | ensureMember agentId token =>
      obtain ⟨rfl, reason, hjoin⟩ := ensureMember_eq_ok ht
      rcases hidle with ⟨hmem, hrole⟩ | ⟨reason', hjoin'⟩
      · exact join_eq_self hmem hrole
      · cases hjoin.symm.trans hjoin'
    | requestJoin agentId profile token =>
      obtain ⟨rfl, hauto⟩ := requestJoin_eq_ok ht
      rcases hidle with hmem | ⟨hopen, htoken⟩
      · simp only [Op.onTeam, Membership.requestJoin, if_pos hmem] at ht
        cases ht
      · rcases hauto with hauto | ⟨hauto, -⟩
        exacts [absurd hauto hopen, absurd hauto htoken]
    | approve agentId reviewedBy note =>
      cases (approve_eq_ok ht).1
      exact join_eq_self hidle.1 hidle.2
    | reject agentId reviewedBy note => cases reject_eq_ok ht
    | invite agentId capabilities groups invitedBy note =>
      cases (invite_eq_ok ht).1
      exact join_eq_self hidle.1 hidle.2
    | removeMember agentId actorId =>
      obtain ⟨hadmin, hmem, hrole⟩ := hidle
      simp only [Op.onTeam, Team.removeMember, bind_eq_ok, pure_eq_ok] at ht
      obtain ⟨_, ⟨_, -, rfl⟩, heq⟩ := ht
      cases heq
      rw [List.erase_of_not_mem hadmin, List.erase_of_not_mem hmem, popRole_eq_self hrole]
  have hlabel : op.label c = .ok c ∨ ∃ e, op.label c = .error e := by
    cases op with
    | initTeam teamName policy joinToken adminIds metadata =>
      obtain ⟨hname, -, -, -, hmeta⟩ := hidle
      simp only [Op.label]
      by_cases hempty : metadata.isEmpty = true
      · exact Or.inl (by rw [if_pos hempty, ← hname])
      · rw [if_neg hempty]
        cases hm : c.metadata with
        | obj old =>
          have hold : ∀ p ∈ metadata, Json.lookup old p.1 = some p.2 := by
            rw [hm] at hmeta
            exact hmeta
          refine Or.inl ?_
          dsimp only
          rw [foldl_insert_eq_self hold, ← hname, ← hm]
        | _ => exact Or.inr ⟨_, rfl⟩
    | _ => exact Or.inl rfl
  have hteam := apply_eq_ok h
  rw [Option.map_some] at hteam
  rw [Op.apply, bind_eq_ok] at h
  obtain ⟨d, hd, h⟩ := h
  rcases hlabel with hl | ⟨e, hl⟩
  · cases hl.symm.trans hd
    simp only [bind_eq_ok, pure_eq_ok] at h
    obtain ⟨⟨_, t⟩, -, heq⟩ := h
    cases t with
    | none => cases heq
    | some t =>
      cases heq
      rw [hkeep t hteam]
  · cases hl.symm.trans hd

/-! ## Runs -/

/-- The stored configuration is accepted. -/
def World.Loads (H : Host) (w : World) : Prop :=
  ∃ c : TeamConfig, w.file = .ok (some c.toDict) ∧ ∀ f, loadConfig H f w.file = .ok c

/-- The manager has a key, or the operation changes nothing that is signed. -/
def World.Able (w : World) (a : Call H) : Prop :=
  a.manager.isSome = true ∨
    ∀ c : TeamConfig, w.file = .ok (some c.toDict) → a.op.Idle H w.requests a.fresh c

/-- **An able call leaves a configuration that is accepted.** -/
theorem World.Loads.step {w w' : World} (hw : w.Loads H) {a : Call H} (hable : w.Able a)
    (h : w.step H a = some w') : w'.Loads H := by
  obtain ⟨c, hfile, hload⟩ := hw
  rw [World.step, hload] at h
  dsimp only at h
  split at h
  · cases h
    exact ⟨c, hfile, hload⟩
  · cases h
    exact ⟨c, hfile, hload⟩
  · rename_i reqs' d happly
    split at h
    · cases h
      exact ⟨c, hfile, hload⟩
    · rename_i e hsave
      cases h
      cases hmanager : a.manager with
      | some k =>
        rw [hmanager] at hsave
        exact ⟨e, rfl, fun f => loadConfig_saveConfig hsave⟩
      | none =>
        rw [hmanager] at hsave
        cases hsave
        rcases hable with hsome | hidle
        · rw [hmanager] at hsome
          cases hsome
        · cases apply_idle happly (hidle c hfile)
          exact ⟨c, rfl, hfile ▸ hload⟩

/-- **The signed configuration**: `load_config` returns what the owner signed iff the file names the
    owner, and it accepts what able calls leave, in every run. -/
theorem signed_config {k : H.SecretKey} {made : Bytes → Prop}
    (hmade : ∀ m, made m → Payload (H.pubkey k) m) :
    (∀ (f : Fresh) (file : TeamFile), (∀ data, file = .ok data → ∀ v ∈ data, v.wf = true) →
      (∀ data, file = .ok data → (configOf f data).Names (H.pubkey k) →
        verifyConfigSignature H (configOf f data) = true →
        ∃ m, canonicalJson (configOf f data).signableDict = some m ∧ made m) →
      ((∀ c, loadConfig H f file = .ok c → ∃ m, canonicalJson c.signableDict = some m ∧ made m) ↔
        ∀ data, file = .ok data → truthy (configOf f data).ownerPubkey = true ∧
          (verifyConfigSignature H (configOf f data) = true →
            (configOf f data).Names (H.pubkey k)))) ∧
    ∀ w w' : World, w.Loads H → Runs.Reach (World.step H) World.Able w w' → w'.Loads H := by
  refine ⟨fun f file hwf hforge => load_made_iff hmade hwf hforge, fun w w' hw h => ?_⟩
  exact h.invariant hw fun _ _ _ hw hable hs => hw.step hable hs

/-! ## A signed team -/

/-- A team of one owner, before it is signed. -/
def plainTeam : TeamConfig where
  teamId := .str "t"
  createdAt := .str "now"
  adminIds := [.str "a"]
  memberIds := [.str "a"]
  roles := [("a", .str "owner")]

/-- The team, as the holder of the key saves it. -/
def sealedTeam (H : Host) (k : H.SecretKey) : TeamConfig :=
  let c := { plainTeam with ownerPubkey := .str (hex (H.pubkey k)), sigUpdatedAt := .str "now" }
  { c with ownerSig := .str (hex (H.sign k ((canonicalJson c.signableDict).getD []))) }

/-- An unsigned team of another admin. -/
def evilTeam : TeamConfig := { plainTeam with adminIds := [.str "evil"] }

theorem saveConfig_plainTeam (k : H.SecretKey) :
    saveConfig H (some k) "now" plainTeam = .ok (sealedTeam H k) := by
  obtain ⟨payload, hpayload⟩ : ∃ b, canonicalJson ({ plainTeam with
      ownerPubkey := .str (hex (H.pubkey k)), sigUpdatedAt := .str "now" } : TeamConfig).signableDict =
        some b := canonicalJson_of_encodable rfl
  simp only [saveConfig, sealedTeam, hpayload, Option.getD_some, expect, ok_bind]
  rfl

/-- The workspace of the signed team. -/
def sealedWorld (H : Host) (k : H.SecretKey) : World where
  file := .ok (some (sealedTeam H k).toDict)

theorem loads_sealedWorld (k : H.SecretKey) : (sealedWorld H k).Loads H :=
  ⟨sealedTeam H k, rfl, fun _ => loadConfig_saveConfig (saveConfig_plainTeam k)⟩

/-- What the owner of the signed team signed. -/
def sealedPayload (H : Host) (k : H.SecretKey) (m : Bytes) : Prop :=
  canonicalJson (sealedTeam H k).signableDict = some m

theorem payload_of_sealedPayload (k : H.SecretKey) (m : Bytes) (h : sealedPayload H k m) :
    Payload (H.pubkey k) m :=
  ⟨sealedTeam H k, rfl, h, rfl⟩

/-- The owner of the signed team lets a member join. -/
def ownerCall (manager : Option checksumHost.SecretKey) : Call checksumHost where
  op := .ensureMember "g" ""
  manager := manager
  fresh := ⟨"t", "later"⟩

/-- With the key, the member joins. -/
def ownerJoins : PLift (((sealedWorld checksumHost (1 : UInt8)).step checksumHost
    (ownerCall (some (1 : UInt8)))).any (fun w => decide (.str "g" ∈ w.team.memberIds)) = true) :=
  ⟨by decide +kernel⟩

/-- Without it, what is saved is not loaded. -/
def keylessJoins : PLift (((sealedWorld checksumHost (1 : UInt8)).step checksumHost
    (ownerCall none)).any
      (fun w => (loadConfig checksumHost ⟨"", ""⟩ w.file).toOption.isNone) = true) :=
  ⟨by decide +kernel⟩

/-- The theorem on the signed team. -/
theorem signed_config_sealed :
    (∀ c, loadConfig checksumHost ⟨"", ""⟩ (.ok (some (sealedTeam checksumHost (1 : UInt8)).toDict)) =
      .ok c → ∃ m, canonicalJson c.signableDict = some m ∧ sealedPayload checksumHost (1 : UInt8) m) ∧
    ∃ w : World, (sealedWorld checksumHost (1 : UInt8)).step checksumHost (ownerCall (some (1 : UInt8))) =
      some w ∧ .str "g" ∈ w.team.memberIds ∧ w.Loads checksumHost := by
  obtain ⟨hfile, hrun⟩ := signed_config (H := checksumHost)
    (payload_of_sealedPayload (H := checksumHost) (1 : UInt8))
  constructor
  · refine (hfile ⟨"", ""⟩ _ ?_ ?_).2 ?_
    · rintro _ ⟨⟩ v hv
      cases hv
      rfl
    · rintro _ ⟨⟩ - -
      obtain ⟨m, hm⟩ : ∃ m, canonicalJson (sealedTeam checksumHost (1 : UInt8)).signableDict = some m :=
        canonicalJson_of_encodable rfl
      exact ⟨m, by rw [configOf_toDict, hm], hm⟩
    · rintro _ ⟨⟩
      rw [configOf_toDict]
      exact ⟨bne_iff_ne.2 (hex_ne_empty (pubkey_ne_nil checksumHost (1 : UInt8))),
        fun _ => ⟨_, rfl, fromhex_hex _⟩⟩
  · obtain ⟨w, hw, hg⟩ := (Option.any_eq_true _ _).1 ownerJoins.down
    exact ⟨w, hw, of_decide_eq_true hg, hrun _ w (loads_sealedWorld _) (Runs.Reach.start.step (.inl rfl) hw)⟩

/-- **An unsigned file is accepted, and a manager without a key bricks the team.** -/
theorem signature_bypassed :
    (loadConfig checksumHost ⟨"", ""⟩ (.ok (some evilTeam.toDict)) = .ok evilTeam ∧
      .str "evil" ∈ evilTeam.adminIds ∧
      ¬ ∃ m, canonicalJson evilTeam.signableDict = some m ∧ sealedPayload checksumHost (1 : UInt8) m) ∧
    ∃ w : World, (sealedWorld checksumHost (1 : UInt8)).Loads checksumHost ∧
      (sealedWorld checksumHost (1 : UInt8)).step checksumHost (ownerCall none) = some w ∧
      ∃ e, loadConfig checksumHost ⟨"", ""⟩ w.file = .error e := by
  refine ⟨⟨loadConfig_eq_ok.2 ⟨_, rfl, (configOf_toDict _).symm, nofun⟩, List.mem_singleton_self _, ?_⟩,
    ?_⟩
  · rintro ⟨m, hm, hsealed⟩
    have hkey : evilTeam.ownerPubkey = .str (hex (checksumHost.pubkey (1 : UInt8))) :=
      ownerPubkey_of_canonicalJson rfl rfl hm hsealed rfl
    exact absurd (Json.str.inj hkey).symm (hex_ne_empty (pubkey_ne_nil checksumHost (1 : UInt8)))
  · obtain ⟨w, hw, hload⟩ := (Option.any_eq_true _ _).1 keylessJoins.down
    refine ⟨w, loads_sealedWorld _, hw, ?_⟩
    cases he : loadConfig checksumHost ⟨"", ""⟩ w.file with
    | error e => exact ⟨e, rfl⟩
    | ok c =>
      rw [he] at hload
      cases hload

end NthDao.Membership
