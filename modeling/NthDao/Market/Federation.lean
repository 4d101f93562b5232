/-
  Digests of a feed (`nth_dao/market/federation.py`).

  A node signs short references to the announcements of its feed, and others verify them.

  * `validateDigestRef`, `validateDigestSchema`: the checks of a digest;
  * `buildDigest`, `verifyDigest`: the two sides;
  * `Announceable`: what an announcement must leave out of its unsigned fields;
  * `digest_built_iff`: a digest of the polled announcements is built, and verifies, just
    when each of them is `Announceable`.
-/
import NthDao.Market.OfferBinding
import NthDao.Market.Pages
import NthDao.Market.SignedFields

namespace NthDao

open Py

namespace Market

variable (H : Host)

/-! ## Digests -/

def feedDigestKind : String := "nth-feed-digest-v1"
def maxDigestRefs : ℕ := 1000
def federationKeyPrefix : String := "nth-ann-sha256:"

/-- `_REF_FIELDS`. -/
def refFields : List String :=
  ["kind", "announcement_id", "publisher_did", "authority_did", "capability_set", "context",
    "reward_minor", "reward_asset", "published_at_ms", "not_after", "listing_type", "offer_digest",
    "price_minor", "price_asset", "availability_summary"]

/-- `_REF_ALLOWED_FIELDS`. -/
def refAllowedFields : List String := refFields ++ ["federation_key"]

/-- `FeedDigest`. -/
structure FeedDigest where
  sourceDid : Json
  generatedAtMs : Json
  highSeq : Json
  refs : Json
  kind : Json := .str feedDigestKind
  digestSig : Json := .str ""

/-- `signing_body`. -/
def FeedDigest.signingBody (d : FeedDigest) : Fields :=
  [("source_did", d.sourceDid), ("generated_at_ms", d.generatedAtMs), ("high_seq", d.highSeq),
    ("refs", d.refs), ("kind", d.kind)]

/-- The reasons of `verify_digest`. -/
inductive DigestReject where
  | missingField | badSourceDid | sigInvalid | sigDecodeFailed | schemaInvalid
  deriving DecidableEq

/-- The texts of the reasons. -/
def DigestReject.text : DigestReject → String
  | missingField => "digest-missing-field"
  | badSourceDid => "digest-bad-source-did"
  | sigInvalid => "digest-sig-invalid"
  | sigDecodeFailed => "digest-sig-decode-failed"
  | schemaInvalid => "digest-schema-invalid"

/-- A digest is not accepted: a reason is returned, or an exception leaves the check. -/
inductive DigestFailure where
  | reject (reason : DigestReject)
  | raises (text : String)
  deriving DecidableEq

/-! ## Checks -/

/-- `_digest_text`. -/
def digestText (v : Json) (minimum maximum : ℕ) (reason : DigestReject) :
    Except DigestFailure Unit := do
  require (v != loneSurrogate) (.raises "surrogates not allowed")
  require (boundedText v minimum maximum) (.reject reason)

/-- `_digest_uint`. -/
def digestUint (v : Json) : Except DigestFailure Unit :=
  require (validNonNegativeInt v) (.reject .schemaInvalid)

/-- A `did:key` of bounded length. -/
def digestDid (v : Json) (reason : DigestReject) : Except DigestFailure Unit := do
  digestText v 1 128 reason
  require (boundedDid v) (.reject reason)

/-- The shape of a federation key. -/
def federationKeyPattern : Json → Bool
  | .str s => len s == 79 && startsWith federationKeyPrefix s && isHex 64 ((chars s).drop 15)
  | _ => false

/-- The commerce fields of a listing. -/
def checkRefV3 (ref : Fields) : Except DigestFailure Unit := do
  require (refAllowedFields.all fun f => (Json.lookup ref f).isSome) (.reject .schemaInvalid)
  let listingType := Json.getD ref "listing_type" (.str "")
  require (!CapToken.unhashable listingType) (.raises "unhashable type")
  require (listingType.eqStr "product" || listingType.eqStr "service") (.reject .schemaInvalid)
  require (offerDigestPattern (Json.getD ref "offer_digest" (.str ""))) (.reject .schemaInvalid)
  digestUint (Json.get ref "price_minor")
  digestText (Json.getD ref "price_asset" (.str "")) 1 64 .schemaInvalid
  require (boundedJsonObject (Json.getD ref "availability_summary" (.obj [])) (4 * 1024))
    (.reject .schemaInvalid)
  require (eqv (Json.get ref "price_minor") (Json.get ref "reward_minor") &&
    eqv (Json.getD ref "price_asset" (.str "")) (Json.get ref "reward_asset"))
    (.reject .schemaInvalid)

/-- The commerce fields of a trade offer. -/
def checkRefTradeOffer (ref : Fields) : Except DigestFailure Unit := do
  require (refAllowedFields.all fun f => (Json.lookup ref f).isSome) (.reject .schemaInvalid)
  require ((Json.getD ref "listing_type" (.str "")).eqStr "exchange") (.reject .schemaInvalid)
  require (offerDigestPattern (Json.getD ref "offer_digest" (.str ""))) (.reject .schemaInvalid)
  require (eqZero (Json.get ref "price_minor") &&
    (Json.getD ref "price_asset" (.str "")).eqStr "" && eqZero (Json.get ref "reward_minor") &&
    (Json.get ref "reward_asset").eqStr "exchange") (.reject .schemaInvalid)
  let availability := Json.getD ref "availability_summary" (.obj [])
  require (boundedJsonObject availability (4 * 1024)) (.reject .schemaInvalid)
  digestText (Json.get availability.fields "offer_id") 3 256 .schemaInvalid
  require (match Json.get availability.fields "revision" with
    | .int n => 1 ≤ n && n ≤ 2147483647
    | _ => false) (.reject .schemaInvalid)
  require ((Json.get availability.fields "state").eqStr "active") (.reject .schemaInvalid)
  require (msOf (Json.get ref "published_at_ms") < msOf (Json.get ref "not_after"))
    (.reject .schemaInvalid)

/-- A task has no commerce fields. -/
def checkRefNoListing (ref : Fields) : Except DigestFailure Unit :=
  require ((Json.getD ref "listing_type" (.str "")).eqStr "" &&
    (Json.getD ref "offer_digest" (.str "")).eqStr "" &&
    eqZero (Json.getD ref "price_minor" (.int 0)) &&
    (Json.getD ref "price_asset" (.str "")).eqStr "" &&
    eqEmptyObj (Json.getD ref "availability_summary" (.obj []))) (.reject .schemaInvalid)

/-- The commerce fields, by the kind. -/
def checkRefListing (ref : Fields) : Except DigestFailure Unit := do
  let kind := Json.getD ref "kind" (.str kindV2)
  require (!CapToken.unhashable kind) (.raises "unhashable type")
  require ([kindV1, kindV2, kindV3, kindTradeOffer].any kind.eqStr) (.reject .schemaInvalid)
  if kind.eqStr kindV3 then checkRefV3 ref
  else if kind.eqStr kindTradeOffer then checkRefTradeOffer ref
  else checkRefNoListing ref

/-- `_validate_digest_ref`. -/
def validateDigestRef (ref : Json) : Except DigestFailure Unit := do
  let ref ← match ref with
    | .obj kvs => .ok kvs
    | _ => .error (.reject .schemaInvalid)
  require (ref.all fun p => refAllowedFields.contains p.1) (.reject .schemaInvalid)
  digestText (Json.get ref "announcement_id") 1 256 .schemaInvalid
  let key := Json.get ref "federation_key"
  require (key == .null || federationKeyPattern key) (.reject .schemaInvalid)
  digestDid (Json.get ref "publisher_did") .schemaInvalid
  let authority := Json.getD ref "authority_did" (.str "")
  if truthy authority then digestDid authority .schemaInvalid
  let caps := Json.get ref "capability_set"
  require (boundedList caps 64 fun _ => true) (.reject .schemaInvalid)
  require (firstUnbounded caps 1 128 != loneSurrogate) (.raises "surrogates not allowed")
  require (boundedList caps 64 fun c => boundedText c 1 128) (.reject .schemaInvalid)
  digestText (Json.get ref "context") 1 128 .schemaInvalid
  digestUint (Json.get ref "reward_minor")
  digestText (Json.get ref "reward_asset") 1 64 .schemaInvalid
  digestUint (Json.get ref "published_at_ms")
  digestUint (Json.get ref "not_after")
  checkRefListing ref

/-- `any(not _validate_digest_ref(ref) for ref in refs)`. -/
def validateDigestRefs : List Json → Except DigestFailure Unit
  | [] => .ok ()
  | ref :: refs => do
    validateDigestRef ref
    validateDigestRefs refs

/-- `_validate_digest_schema` without the signature. -/
def validateDigestBody (d : FeedDigest) : Except DigestFailure Unit := do
  require (d.kind.eqStr feedDigestKind) (.reject .schemaInvalid)
  digestDid d.sourceDid .badSourceDid
  digestUint d.generatedAtMs
  require (match d.highSeq with
    | .int n => -1 ≤ n && n ≤ 2 ^ 63 - 1
    | _ => false) (.reject .schemaInvalid)
  let refs ← match d.refs with
    | .arr refs => .ok refs
    | _ => .error (.reject .schemaInvalid)
  require (refs.length ≤ maxDigestRefs) (.reject .schemaInvalid)
  validateDigestRefs refs

/-- The text of the signature: canonical, of 64 bytes. -/
def checkDigestSig (d : FeedDigest) : Except DigestFailure Unit := do
  digestText d.digestSig 1 128 .missingField
  let sig := toStr H.isprintable d.digestSig
  let decoded ← expect (b64uDecode sig) (.reject .sigDecodeFailed)
  require (decoded.length == 64 && b64uEncode decoded == sig) (.reject .sigDecodeFailed)

/-- `verify_digest`. -/
def verifyDigest (d : FeedDigest) : Except DigestFailure Unit := do
  require (truthy d.kind && truthy d.sourceDid && truthy d.digestSig) (.reject .missingField)
  validateDigestBody d
  checkDigestSig H d
  let sourceDid ← expect d.sourceDid.asStr (.reject .badSourceDid)
  let pubkey ← expect (decodeDidKey sourceDid) (.reject .badSourceDid)
  let sig ← expect (b64uDecode (toStr H.isprintable d.digestSig)) (.reject .sigDecodeFailed)
  let payload ← expect (canonicalJson (.obj d.signingBody)) (.reject .sigInvalid)
  require (H.verify pubkey payload sig) (.reject .sigInvalid)

/-! ## Building a digest -/

/-- `announcement_federation_key`. -/
def announcementFederationKey (a : TaskAnnouncement) : Except String String := do
  let body ← expect (canonicalJson (.obj a.signingBody)) "not canonical JSON"
  return federationKeyPrefix ++ H.sha256 body

/-- The reference to an announcement. -/
def refOf (a : TaskAnnouncement) (key : String) : Json :=
  .obj (refFields.map (fun f => (f, Json.get a.toDict f)) ++ [("federation_key", .str key)])

/-- The references to announcements, in their order. -/
def refsOf : List TaskAnnouncement → Except String (List Json)
  | [] => .ok []
  | a :: as => do
    let key ← announcementFederationKey H a
    let refs ← refsOf as
    return refOf a key :: refs

/-- The announcements that a source may refer to: its own ones that are open. -/
def selected (sourceDid : String) (isOpen : TaskAnnouncement → Bool) (r : PollResult) :
    List TaskAnnouncement :=
  (r.announcements.map Prod.snd).filter fun a =>
    a.effectiveAuthorityDid.eqStr sourceDid && isOpen a

/-- The limit of the poll. -/
def pageLimit : Option ℤ → Except String ℤ
  | none => .ok maxDigestRefs
  | some n =>
    if 0 ≤ n then .ok (min n maxDigestRefs)
    else .error "limit must be a non-negative integer or None"

/-- A digest of these references, still without its signature. -/
def unsignedDigest (sourceDid : String) (generatedAt cursor : ℤ) (refs : List Json) : FeedDigest :=
  { sourceDid := .str sourceDid
    generatedAtMs := .int generatedAt
    highSeq := .int cursor
    refs := .arr refs }

/-- `build_digest`; `generatedAt` is the time on the digest. -/
def buildDigest (q : Reader) (file : Option Bytes) (source : H.SecretKey) (since : ℤ)
    (limit : Option ℤ) (generatedAt : ℤ) (isOpen : TaskAnnouncement → Bool) :
    Except String FeedDigest := do
  require (-1 ≤ since) "since_seq must be an integer >= -1"
  let page ← pageLimit limit
  let r ← poll H (q.args (some page)) file since
  let refs ← refsOf H (selected (asDid H source) isOpen r)
  let digest := unsignedDigest (asDid H source) generatedAt r.cursor refs
  let _ ← (validateDigestBody digest).mapError fun
    | .reject reason => "invalid digest schema: " ++ reason.text
    | .raises text => text
  let body ← expect (canonicalJson (.obj digest.signingBody)) "not canonical JSON"
  return { digest with digestSig := .str (signText H source body) }

/-- What the fields that no signature covers must be for a reference: no authority but a
    `did:key`, and no `float`. -/
def Announceable (a : TaskAnnouncement) : Prop :=
  (a.kind = .str kindV1 → a.authorityDid.encodable = true ∧
    (truthy a.authorityDid = true → boundedDid a.authorityDid = true)) ∧
  (a.legacy = true → a.priceMinor.encodable = true)

/-! ## What a verified announcement has -/

variable {H} {a : TaskAnnouncement}

/-- The commerce fields, by the kind. -/
def checkListing (H : Host) (a : TaskAnnouncement) : Except AnnFailure Unit :=
  if a.kind.eqStr kindV3 then checkListingV3 a
  else if a.kind.eqStr kindTradeOffer then checkTradeOffer H a
  else checkNoListing a

/-- What the schema says of the fields of a reference. -/
structure Checked (H : Host) (a : TaskAnnouncement) : Prop where
  kind : a.kind = .str kindV1 ∨ a.kind = .str kindV2 ∨ a.kind = .str kindV3 ∨
    a.kind = .str kindTradeOffer
  id : boundedText a.announcementId 1 256 = true
  publisher : boundedDid a.publisherDid = true
  authority : boundedDid a.effectiveAuthorityDid = true
  listing : checkListing H a = .ok ()
  caps : boundedList a.capabilitySet 64 (fun c => boundedText c 1 128) = true
  context : boundedText a.context 1 128 = true
  reward : validNonNegativeInt a.rewardMinor = true
  asset : boundedText a.rewardAsset 1 64 = true
  published : validNonNegativeInt a.publishedAtMs = true
  notAfter : validNonNegativeInt a.notAfter = true

theorem boundedText_of_validId (h : validAnnouncementId H a = true) :
    boundedText a.announcementId 1 256 = true := by
  unfold validAnnouncementId at h
  split at h
  · rename_i s hs
    simp only [Bool.and_eq_true] at h
    rw [hs]
    exact h.1.1.1
  · cases h

/-- The checks behind those of the kind. -/
def checkRest (H : Host) (a : TaskAnnouncement) : Except AnnFailure Unit := do
  encodable a.title
  require (boundedText a.title 1 512) (.reject .schemaInvalid)
  encodable a.description
  require (boundedText a.description 0 (64 * 1024)) (.reject .schemaInvalid)
  require (boundedList a.capabilitySet 64 fun _ => true) (.reject .schemaInvalid)
  encodable (firstUnbounded a.capabilitySet 1 128)
  require (boundedList a.capabilitySet 64 fun c => boundedText c 1 128) (.reject .schemaInvalid)
  encodable a.context
  require (boundedText a.context 1 128) (.reject .schemaInvalid)
  require (boundedJsonObject a.inputSchema (64 * 1024)) (.reject .schemaInvalid)
  require (boundedJsonObject a.acceptance (64 * 1024)) (.reject .schemaInvalid)
  require (boundedJsonObject a.claimantPolicy (64 * 1024)) (.reject .schemaInvalid)
  require (validNonNegativeInt a.rewardMinor) (.reject .schemaInvalid)
  encodable a.rewardAsset
  require (boundedText a.rewardAsset 1 64) (.reject .schemaInvalid)
  encodable a.missionId
  require (boundedText a.missionId 0 256) (.reject .schemaInvalid)
  require (validNonNegativeInt a.publishedAtMs) (.reject .schemaInvalid)
  require (validNonNegativeInt a.notAfter) (.reject .schemaInvalid)
  checkSigText H a

theorem validateAnnouncementSchema_eq : validateAnnouncementSchema H a = (do
    require (!CapToken.unhashable a.kind) (.raises "unhashable type")
    require (a.legacy || a.kind.eqStr kindV3 || a.kind.eqStr kindTradeOffer) (.reject .schemaInvalid)
    encodable a.announcementId
    require (validAnnouncementId H a) (.reject .schemaInvalid)
    encodable a.publisherDid
    require (boundedDid a.publisherDid) (.reject .badPublisherDid)
    encodable a.effectiveAuthorityDid
    require (boundedDid a.effectiveAuthorityDid) (.reject .badPublisherDid)
    checkListing H a
    checkRest H a) := by
  unfold validateAnnouncementSchema checkListing checkRest
  split_ifs <;> rfl

theorem Checked.of (h : verifyAnnouncement H a = .ok ()) : Checked H a := by
  have hs := (verifyAnnouncement_eq_ok h).1
  simp only [validateAnnouncementSchema_eq, checkRest, unit_bind_eq_ok, require_eq_ok] at hs
  obtain ⟨-, hkind, -, hid, -, hpub, -, hauth, hlist, -, -, -, -, -, -, hcaps, -, hctx, -, -, -,
    hreward, -, hasset, -, -, hpublished, hafter, -⟩ := hs
  refine ⟨?_, boundedText_of_validId hid, hpub, hauth, hlist, hcaps, hctx, hreward, hasset,
    hpublished, hafter⟩
  rw [Bool.or_eq_true, Bool.or_eq_true, legacy_iff, Json.eqStr_iff, Json.eqStr_iff] at hkind
  tauto

/-! ## References -/

theorem digestText_eq_ok {v : Json} {lo hi : ℕ} {reason : DigestReject} :
    digestText v lo hi reason = .ok () ↔ boundedText v lo hi = true := by
  rw [digestText, unit_bind_eq_ok, require_eq_ok, require_eq_ok, bne_iff_ne]
  refine and_iff_right_of_imp ?_
  rintro h rfl
  cases h

theorem digestDid_eq_ok {v : Json} {reason : DigestReject} :
    digestDid v reason = .ok () ↔ boundedDid v = true := by
  rw [digestDid, unit_bind_eq_ok, digestText_eq_ok, require_eq_ok]
  refine and_iff_right_of_imp fun h => ?_
  unfold boundedDid at h
  exact (Bool.and_eq_true _ _ ▸ h).1

theorem digestUint_eq_ok {v : Json} :
    digestUint v = .ok () ↔ validNonNegativeInt v = true := require_eq_ok

/-- A list of bounded texts stops no check. -/
theorem firstUnbounded_of_bounded {v : Json} {n lo hi : ℕ}
    (h : boundedList v n (fun c => boundedText c lo hi) = true) :
    boundedList v n (fun _ => true) = true ∧ firstUnbounded v lo hi = .null := by
  unfold boundedList at h
  split at h
  · rename_i xs
    rw [Bool.and_eq_true, List.all_eq_true] at h
    refine ⟨by simp [boundedList, h.1], ?_⟩
    have hnone : xs.find? (fun c => !boundedText c lo hi) = none :=
      List.find?_eq_none.2 fun c hc => by simp [h.2 c hc]
    rw [firstUnbounded, hnone, Option.getD_none]
  · cases h

/-- The items of a reference. -/
def refItems (a : TaskAnnouncement) (key : String) : Fields :=
  refFields.map (fun f => (f, Json.get a.toDict f)) ++ [("federation_key", .str key)]

theorem validateDigestRef_refOf (a : TaskAnnouncement) (key : String) :
    validateDigestRef (refOf a key) = (do
      digestText a.announcementId 1 256 .schemaInvalid
      require (Json.str key == .null || federationKeyPattern (.str key)) (.reject .schemaInvalid)
      digestDid a.publisherDid .schemaInvalid
      if truthy a.authorityDid then digestDid a.authorityDid .schemaInvalid
      require (boundedList a.capabilitySet 64 fun _ => true) (.reject .schemaInvalid)
      require (firstUnbounded a.capabilitySet 1 128 != loneSurrogate)
        (.raises "surrogates not allowed")
      require (boundedList a.capabilitySet 64 fun c => boundedText c 1 128) (.reject .schemaInvalid)
      digestText a.context 1 128 .schemaInvalid
      digestUint a.rewardMinor
      digestText a.rewardAsset 1 64 .schemaInvalid
      digestUint a.publishedAtMs
      digestUint a.notAfter
      checkRefListing (refItems a key)) := rfl

theorem checkRefListing_refItems (a : TaskAnnouncement) (key : String) :
    checkRefListing (refItems a key) = (do
      require (!CapToken.unhashable a.kind) (.raises "unhashable type")
      require ([kindV1, kindV2, kindV3, kindTradeOffer].any a.kind.eqStr) (.reject .schemaInvalid)
      if a.kind.eqStr kindV3 then checkRefV3 (refItems a key)
      else if a.kind.eqStr kindTradeOffer then checkRefTradeOffer (refItems a key)
      else checkRefNoListing (refItems a key)) := rfl

/-- The two checks of a listing agree. -/
theorem checkRefV3_eq_ok (key : String) (h : checkListingV3 a = .ok ()) :
    checkRefV3 (refItems a key) = .ok () := by
  simp only [checkListingV3, unit_bind_eq_ok, require_eq_ok] at h
  obtain ⟨hhash, htype, hdigest, -, -, hprice, -, hasset, hsum, heq⟩ := h
  have href : checkRefV3 (refItems a key) = (do
      require true (.reject .schemaInvalid)
      require (!CapToken.unhashable a.listingType) (.raises "unhashable type")
      require (a.listingType.eqStr "product" || a.listingType.eqStr "service")
        (.reject .schemaInvalid)
      require (offerDigestPattern a.offerDigest) (.reject .schemaInvalid)
      digestUint a.priceMinor
      digestText a.priceAsset 1 64 .schemaInvalid
      require (boundedJsonObject a.availabilitySummary (4 * 1024)) (.reject .schemaInvalid)
      require (eqv a.priceMinor a.rewardMinor && eqv a.priceAsset a.rewardAsset)
        (.reject .schemaInvalid)) := rfl
  rw [href]
  simp only [unit_bind_eq_ok, require_eq_ok, digestUint_eq_ok, digestText_eq_ok]
  exact ⟨trivial, hhash, htype, hdigest, hprice, hasset, hsum, heq⟩

/-- Those of a trade offer agree for an announcement that ends after it was published. -/
theorem checkRefTradeOffer_eq_ok (key : String) (h : checkTradeOffer H a = .ok ())
    (hlt : msOf a.publishedAtMs < msOf a.notAfter) :
    checkRefTradeOffer (refItems a key) = .ok () := by
  simp only [checkTradeOffer, unit_bind_eq_ok, require_eq_ok, Bool.and_eq_true] at h
  obtain ⟨htype, hdigest, -, -, -, ⟨hprice, hasset⟩, ⟨hreward, hrasset⟩, hsum, hid, hrev, hstate⟩ := h
  have href : checkRefTradeOffer (refItems a key) = (do
      require true (.reject .schemaInvalid)
      require (a.listingType.eqStr "exchange") (.reject .schemaInvalid)
      require (offerDigestPattern a.offerDigest) (.reject .schemaInvalid)
      require (eqZero a.priceMinor && a.priceAsset.eqStr "" && eqZero a.rewardMinor &&
        a.rewardAsset.eqStr "exchange") (.reject .schemaInvalid)
      require (boundedJsonObject a.availabilitySummary (4 * 1024)) (.reject .schemaInvalid)
      digestText (Json.get a.availabilitySummary.fields "offer_id") 3 256 .schemaInvalid
      require (match Json.get a.availabilitySummary.fields "revision" with
        | .int n => 1 ≤ n && n ≤ 2147483647
        | _ => false) (.reject .schemaInvalid)
      require ((Json.get a.availabilitySummary.fields "state").eqStr "active")
        (.reject .schemaInvalid)
      require (msOf a.publishedAtMs < msOf a.notAfter) (.reject .schemaInvalid)) := rfl
  rw [href]
  simp only [unit_bind_eq_ok, require_eq_ok, digestText_eq_ok, Bool.and_eq_true,
    decide_eq_true_eq]
  exact ⟨trivial, htype, hdigest, ⟨⟨⟨hprice, hasset⟩, hreward⟩, hrasset⟩, hsum, hid, hrev, hstate,
    hlt⟩

theorem checkRefNoListing_eq (a : TaskAnnouncement) (key : String) :
    checkRefNoListing (refItems a key) = require (a.listingType.eqStr "" && a.offerDigest.eqStr "" &&
      eqZero a.priceMinor && a.priceAsset.eqStr "" && eqEmptyObj a.availabilitySummary)
      (.reject .schemaInvalid) := rfl

/-- The commerce fields of a reference are right if those of the announcement are. -/
theorem Checked.checkRefListing (hc : Checked H a) (key : String)
    (hlt : a.kind = .str kindTradeOffer → msOf a.publishedAtMs < msOf a.notAfter) :
    checkRefListing (refItems a key) = .ok () := by
  have hlist := hc.listing
  rw [checkRefListing_refItems]
  rw [checkListing] at hlist
  simp only [unit_bind_eq_ok, require_eq_ok]
  refine ⟨?_, ?_, ?_⟩
  · rcases hc.kind with hk | hk | hk | hk <;> rw [hk] <;> rfl
  · rcases hc.kind with hk | hk | hk | hk <;> rw [hk] <;> decide
  · split_ifs at hlist ⊢ with h3 ht
    · exact checkRefV3_eq_ok key hlist
    · exact checkRefTradeOffer_eq_ok key hlist (hlt (Json.eqStr_iff.1 ht))
    · obtain ⟨hl, hd, hu, hp, hs, hv⟩ := checkNoListing_eq_ok hlist
      rw [checkRefNoListing_eq, require_eq_ok, hl, hd, hp, hs, hv]
      rfl

/-- **A reference is accepted** just when its authority is a `did:key`, or nothing. -/
theorem Checked.validateDigestRef_iff (hc : Checked H a) {key : String}
    (hkey : federationKeyPattern (.str key) = true)
    (hlt : a.kind = .str kindTradeOffer → msOf a.publishedAtMs < msOf a.notAfter) :
    validateDigestRef (refOf a key) = .ok () ↔
      (truthy a.authorityDid = true → boundedDid a.authorityDid = true) := by
  obtain ⟨hlist, hfirst⟩ := firstUnbounded_of_bounded hc.caps
  have hnull : (Json.null != loneSurrogate) = true := by decide
  rw [validateDigestRef_refOf]
  by_cases ht : truthy a.authorityDid = true
  · simp only [ht, if_true, hfirst, hlist, hkey, hnull, Bool.or_true, hc.caps, unit_bind_eq_ok,
      require_eq_ok, digestText_eq_ok, digestDid_eq_ok, digestUint_eq_ok, hc.id, hc.publisher,
      hc.context, hc.reward, hc.asset, hc.published, hc.notAfter, hc.checkRefListing key hlt,
      true_and, and_true, forall_const]
  · simp only [ht, if_false, hfirst, hlist, hkey, hnull, Bool.or_true, hc.caps, unit_bind_eq_ok,
      require_eq_ok, digestText_eq_ok, digestDid_eq_ok, digestUint_eq_ok, hc.id, hc.publisher,
      hc.context, hc.reward, hc.asset, hc.published, hc.notAfter, hc.checkRefListing key hlt,
      true_and, false_imp_iff, Bool.false_eq_true]

/-! ## Canonical text -/

/-- The signed fields of a verified announcement have canonical text. -/
theorem encodable_signed (h : verifyAnnouncement H a = .ok ()) {f : String}
    (hf : f ∈ announcementFields) (hsig : f ≠ "publisher_sig")
    (hu : a.unsignedFields.contains f = false) : (Json.get a.toDict f).encodable = true := by
  obtain ⟨-, did, pk, sig, m, -, -, -, hm, -⟩ := verifyAnnouncement_eq_ok h
  have hall := canonicalJson_isSome.1 ⟨m, hm⟩
  obtain ⟨v, hv⟩ : ∃ v, Json.lookup a.toDict f = some v := by
    cases hl : Json.lookup a.toDict f with
    | some v => exact ⟨v, rfl⟩
    | none => exact absurd (map_fst_toDict (a := a) ▸ hf) (Json.lookup_eq_none_iff.1 hl)
  have hmem : (f, v) ∈ a.signingBody := by
    refine List.mem_filter.2 ⟨Json.mem_of_lookup hv, ?_⟩
    show (f != "publisher_sig" && !a.unsignedFields.contains f) = true
    rw [hu]
    simp [hsig]
  rw [Json.get, hv]
  exact hall _ hmem

/-- **A reference has canonical text** just when its unsigned fields have it. -/
theorem encodable_refOf (h : verifyAnnouncement H a = .ok ()) (key : String) :
    (refOf a key).encodable = true ↔
      (a.kind = .str kindV1 → a.authorityDid.encodable = true) ∧
        (a.legacy = true → a.priceMinor.encodable = true) := by
  have hc := Checked.of h
  have hitems : (refOf a key).encodable = true ↔
      ∀ f ∈ refFields, (Json.get a.toDict f).encodable = true := by
    rw [refOf, Json.encodable_obj]
    constructor
    · intro hall f hf
      exact hall (f, Json.get a.toDict f) (List.mem_append_left _ (List.mem_map_of_mem hf))
    · intro hall p hp
      rcases List.mem_append.1 hp with hp | hp
      · obtain ⟨f, hf, rfl⟩ := List.mem_map.1 hp
        exact hall f hf
      · rw [List.mem_singleton.1 hp]
        rfl
  rw [hitems]
  constructor
  · intro hall
    exact ⟨fun _ => hall "authority_did" (by decide), fun _ => hall "price_minor" (by decide)⟩
  · rintro ⟨hauth, hprice⟩ f hf
    have hf' : f ∈ announcementFields ∧ f ≠ "publisher_sig" := by
      revert f
      decide
    by_cases hu : a.unsignedFields.contains f = true
    · rw [List.contains_iff_mem, unsignedFields_eq, List.mem_append] at hu
      rcases hu with hu | hu
      · split_ifs at hu with hl
        · have hlist := hc.listing
          have hother : a.kind.eqStr kindV3 = false ∧ a.kind.eqStr kindTradeOffer = false := by
            rcases legacy_iff.1 hl with hk | hk <;> rw [hk] <;> decide
          rw [checkListing, hother.1, hother.2, if_neg (by decide), if_neg (by decide)] at hlist
          obtain ⟨h₁, h₂, h₃, -, h₅, h₆⟩ := checkNoListing_eq_ok hlist
          rw [commerceFields, List.mem_cons, List.mem_cons, List.mem_cons, List.mem_cons,
            List.mem_cons, List.mem_singleton] at hu
          rcases hu with rfl | rfl | rfl | rfl | rfl | rfl
          · show a.listingType.encodable = true
            rw [h₁]; rfl
          · show a.offerDigest.encodable = true
            rw [h₂]; rfl
          · show a.offerUri.encodable = true
            rw [h₃]; rfl
          · exact hprice hl
          · show a.priceAsset.encodable = true
            rw [h₅]; rfl
          · show a.availabilitySummary.encodable = true
            rw [h₆]; rfl
        · cases hu
      · split_ifs at hu with h1
        · rw [List.mem_singleton.1 hu]
          exact hauth (Json.eqStr_iff.1 h1)
        · cases hu
    · exact encodable_signed h hf'.1 hf'.2 (by simpa using hu)

/-- Outside version 1 the authority is signed, and a `did:key`. -/
theorem Checked.boundedDid_authority (hc : Checked H a) (h1 : a.kind ≠ .str kindV1) :
    boundedDid a.authorityDid = true := by
  have h := hc.authority
  have hk : a.kind.eqStr kindV1 = false := by
    rw [← Bool.not_eq_true, Json.eqStr_iff]
    exact h1
  rwa [TaskAnnouncement.effectiveAuthorityDid, hk, if_neg (by decide)] at h

/-- A reference can be sent just when the announcement is announceable. -/
theorem announceable_iff (h : verifyAnnouncement H a = .ok ()) {key : String}
    (hkey : federationKeyPattern (.str key) = true)
    (hlt : a.kind = .str kindTradeOffer → msOf a.publishedAtMs < msOf a.notAfter) :
    Announceable a ↔
      validateDigestRef (refOf a key) = .ok () ∧ (refOf a key).encodable = true := by
  have hc := Checked.of h
  rw [hc.validateDigestRef_iff hkey hlt, encodable_refOf h]
  constructor
  · rintro ⟨hauth, hprice⟩
    refine ⟨fun ht => ?_, fun h1 => (hauth h1).1, hprice⟩
    by_cases h1 : a.kind = .str kindV1
    · exact (hauth h1).2 ht
    · exact hc.boundedDid_authority h1
  · rintro ⟨hdid, hauth, hprice⟩
    exact ⟨fun h1 => ⟨hauth h1, hdid⟩, hprice⟩

/-- The key of a verified announcement. -/
theorem exists_federationKey (h : verifyAnnouncement H a = .ok ()) :
    ∃ key, announcementFederationKey H a = .ok key ∧ federationKeyPattern (.str key) = true := by
  obtain ⟨-, did, pk, sig, m, -, -, -, hm, -⟩ := verifyAnnouncement_eq_ok h
  refine ⟨federationKeyPrefix ++ H.sha256 m, by rw [announcementFederationKey, hm]; rfl, ?_⟩
  have hhex := H.sha256_isHex m
  have hlen : (H.sha256 m).toList.length = 64 := by
    rw [isHex, Bool.and_eq_true, beq_iff_eq] at hhex
    exact hhex.1
  have hpre : federationKeyPrefix.toList.length = 15 := by decide
  have hchars : chars (federationKeyPrefix ++ H.sha256 m) =
      federationKeyPrefix.toList ++ (H.sha256 m).toList := by
    rw [chars_eq, String.toList_append]
  rw [federationKeyPattern, len, hchars, Bool.and_eq_true, Bool.and_eq_true, beq_iff_eq]
  refine ⟨⟨by rw [List.length_append, hpre, hlen], ?_⟩, ?_⟩
  · rw [startsWith, hchars, chars_eq, List.isPrefixOf_iff_prefix]
    exact List.prefix_append _ _
  · rw [← hpre, List.drop_left]
    exact hhex

/-! ## What is polled -/

theorem safeParse_eq_some {stores : TaskAnnouncement → Binding} {raw : Option Json}
    (h : safeParse H stores raw = .ok (some a)) :
    verifyAnnouncement H a = .ok () ∧ requireListingBinding stores a = .bound := by
  unfold safeParse at h
  split at h
  · split at h
    · cases h
    · split at h
      · cases h
      · cases h
      · rename_i hv
        split at h
        · rename_i hb
          cases h
          exact ⟨hv, hb⟩
        · cases h
        · cases h
  · cases h

/-- A poll returns verified announcements, not more than its limit. -/
theorem mem_pollLoop {p : PollArgs} {since : ℤ} {k : ℕ} {recs : List (Option Json)}
    {r r' : PollResult} (h : pollLoop H p since k recs r = .ok r') :
    (∀ x ∈ r'.announcements, x ∈ r.announcements ∨
      ∃ s raw, safeParse H (p.stores s) raw = .ok (some x.2)) ∧
    ∀ n : ℕ, p.limit = some (n : ℤ) → r.announcements.length ≤ n →
      r'.announcements.length ≤ n := by
  induction recs generalizing k r with
  | nil =>
    cases h
    exact ⟨fun x hx => .inl hx, fun n _ hn => hn⟩
  | cons raw rest ih =>
    have skipped : ∀ {c : ℤ}, pollLoop H p since (k + 1) rest { r with cursor := c } = .ok r' →
        (∀ x ∈ r'.announcements, x ∈ r.announcements ∨
          ∃ s raw, safeParse H (p.stores s) raw = .ok (some x.2)) ∧
        ∀ n : ℕ, p.limit = some (n : ℤ) → r.announcements.length ≤ n →
          r'.announcements.length ≤ n := fun {c} hc =>
      ih (r := { r with cursor := c }) hc
    rw [pollLoop] at h
    by_cases hk : (k : ℤ) ≤ since
    · rw [if_pos hk] at h
      exact ih h
    rw [if_neg hk] at h
    split at h
    · cases h
    · exact skipped h
    · rename_i a hsafe
      split at h
      · exact skipped h
      split at h
      · cases h
        exact ⟨fun x hx => .inl hx, fun n _ hn => hn⟩
      · rename_i hfull
        obtain ⟨hmem, hlen⟩ := ih h
        refine ⟨fun x hx => ?_, fun n hl hn => hlen n hl ?_⟩
        · rcases hmem x hx with hx | hx
          · rcases List.mem_append.1 hx with hx | hx
            · exact .inl hx
            · rw [List.mem_singleton.1 hx]
              exact .inr ⟨k, raw, hsafe⟩
          · exact .inr hx
        · simp only [PollArgs.full, hl, decide_eq_true_eq, not_le] at hfull
          rw [List.length_append, List.length_singleton]
          omega

variable {q : Reader} {file : Option Bytes} {since : ℤ}

theorem mem_poll {page : ℤ} {r : PollResult}
    (h : poll H (q.args (some page)) file since = .ok r) {x : ℕ × TaskAnnouncement}
    (hx : x ∈ r.announcements) :
    verifyAnnouncement H x.2 = .ok () ∧ requireListingBinding q.stores x.2 = .bound := by
  rw [poll, bind_eq_ok] at h
  obtain ⟨recs, -, h⟩ := h
  rcases (mem_pollLoop h).1 x hx with hx | ⟨s, raw, hs⟩
  · cases hx
  · exact safeParse_eq_some hs

theorem length_poll {page : ℤ} {r : PollResult} (hpage : 0 ≤ page)
    (h : poll H (q.args (some page)) file since = .ok r) : (r.announcements.length : ℤ) ≤ page := by
  rw [poll, bind_eq_ok] at h
  obtain ⟨recs, -, h⟩ := h
  have := (mem_pollLoop h).2 page.toNat (by
    show some page = some (page.toNat : ℤ)
    rw [Int.toNat_of_nonneg hpage]) (Nat.zero_le _)
  omega

theorem pageLimit_eq_ok {limit : Option ℤ} {page : ℤ} (h : pageLimit limit = .ok page) :
    0 ≤ page ∧ page ≤ maxDigestRefs := by
  have hmax : maxDigestRefs = 1000 := rfl
  unfold pageLimit at h
  split at h
  · cases h
    omega
  · split_ifs at h
    cases h
    omega

/-! ## Building and verifying -/

theorem validateDigestRefs_eq_ok {refs : List Json} :
    validateDigestRefs refs = .ok () ↔ ∀ ref ∈ refs, validateDigestRef ref = .ok () := by
  induction refs with
  | nil => simp [validateDigestRefs]
  | cons ref refs ih => rw [validateDigestRefs, unit_bind_eq_ok, ih, List.forall_mem_cons]

/-- The references of verified announcements, one for each in their order. -/
theorem refsOf_eq_ok {as : List TaskAnnouncement}
    (h : ∀ a ∈ as, verifyAnnouncement H a = .ok ()) :
    ∃ refs, refsOf H as = .ok refs ∧ refs.length = as.length ∧
      ∀ P : Json → Prop, (∀ ref ∈ refs, P ref) ↔
        ∀ a ∈ as, ∀ key, announcementFederationKey H a = .ok key → P (refOf a key) := by
  induction as with
  | nil => exact ⟨[], rfl, rfl, fun P => by simp⟩
  | cons a as ih =>
    rw [List.forall_mem_cons] at h
    obtain ⟨refs, hrefs, hlen, hall⟩ := ih h.2
    obtain ⟨key, hkey, -⟩ := exists_federationKey h.1
    refine ⟨refOf a key :: refs, ?_, by rw [List.length_cons, hlen, List.length_cons], fun P => ?_⟩
    · rw [refsOf, hkey, ok_bind, hrefs]
      rfl
    · rw [List.forall_mem_cons, List.forall_mem_cons, hall P]
      refine and_congr_left fun _ => ⟨fun hp key' hkey' => ?_, fun hp => hp key hkey⟩
      rw [hkey] at hkey'
      cases hkey'
      exact hp

theorem boundedDid_asDid (k : H.SecretKey) : boundedDid (.str (asDid H k)) = true := by
  have hlen := length_encodeDidKey (H.pubkey_length k)
  have hutf : (utf8 (chars (asDid H k))).length = (asDid H k).length := by
    rw [chars_eq, asDid, utf8_length_plain (plain_encodeDidKey _), String.length_toList]
  have hpos : 0 < (asDid H k).length := by
    rw [← String.length_toList, asDid, encodeDidKey, String.toList_ofList, List.length_append]
    exact Nat.add_pos_left (by decide) _
  rw [boundedDid, Bool.and_eq_true]
  refine ⟨?_, isDidKey_asDid H k⟩
  simp only [boundedText, Bool.and_eq_true, decide_eq_true_eq, hutf]
  rw [asDid] at hpos ⊢
  omega

theorem boundedText_signText (k : H.SecretKey) (m : Bytes) :
    boundedText (.str (signText H k m)) 1 128 = true := by
  have hplain : ∀ c ∈ (signText H k m).toList, plain c = true := by
    intro c hc
    rw [signText, b64uEncode, String.toList_ofList] at hc
    obtain ⟨n, hn, rfl⟩ := List.mem_map.1 hc
    exact plain_b64Char n (sextets_lt _ n hn)
  have hlen := length_signText H k m
  simp only [boundedText, chars_eq, utf8_length_plain hplain, String.length_toList, hlen]
  decide

/-- The digest of a source verifies when its body is right. -/
theorem verifyDigest_signed {d : FeedDigest} {source : H.SecretKey} {body : Bytes}
    (hkind : d.kind = .str feedDigestKind) (hsource : d.sourceDid = .str (asDid H source))
    (hbody : validateDigestBody d = .ok ()) (hcanon : canonicalJson (.obj d.signingBody) = some body) :
    verifyDigest H { d with digestSig := .str (signText H source body) } = .ok () := by
  have hsig : signText H source body ≠ "" := by
    intro he
    have := length_signText H source body
    rw [he] at this
    cases this
  have hdec : b64uDecode (signText H source body) = some (H.sign source body) :=
    b64uDecode_b64uEncode _
  have htruthy : (truthy d.kind && truthy d.sourceDid && truthy (.str (signText H source body))) =
      true := by
    rw [hkind, hsource]
    simp [truthy, hsig, asDid_ne_empty, feedDigestKind]
  have hsigned : checkDigestSig H { d with digestSig := .str (signText H source body) } = .ok () := by
    simp only [checkDigestSig, unit_bind_eq_ok, digestText_eq_ok, expect_bind_eq_ok, require_eq_ok]
    exact ⟨boundedText_signText source body, _, hdec, by rw [H.sign_length]; simp [toStr, signText]⟩
  simp only [verifyDigest, unit_bind_eq_ok, require_eq_ok, expect_bind_eq_ok]
  refine ⟨htruthy, hbody, hsigned, asDid H source, by rw [hsource]; rfl, _,
    decodeDidKey_asDid H source, _, hdec, body, hcanon, H.verify_sign source body⟩

/-- The body of a digest is right if its references are. -/
theorem validateDigestBody_iff (source : H.SecretKey) {generatedAt cursor : ℤ} {refs : List Json}
    (htime : 0 ≤ generatedAt ∧ generatedAt ≤ 2 ^ 63 - 1) (hcursor : -1 ≤ cursor ∧ cursor ≤ 2 ^ 63 - 1)
    (hcount : refs.length ≤ maxDigestRefs) :
    validateDigestBody (unsignedDigest (asDid H source) generatedAt cursor refs) = .ok () ↔
      ∀ ref ∈ refs, validateDigestRef ref = .ok () := by
  have hkind : (Json.str feedDigestKind).eqStr feedDigestKind = true := by decide
  simp only [validateDigestBody, unsignedDigest, unit_bind_eq_ok, require_eq_ok, hkind,
    digestDid_eq_ok, boundedDid_asDid, digestUint_eq_ok, validNonNegativeInt, ok_bind, htime.1,
    htime.2, hcursor.1, hcursor.2, hcount, decide_true, Bool.and_self, true_and,
    validateDigestRefs_eq_ok]

/-- It has canonical text if they have. -/
theorem canonicalJson_unsignedDigest (did : String) {generatedAt cursor : ℤ} {refs : List Json}
    (htime : 0 ≤ generatedAt ∧ generatedAt ≤ 2 ^ 63 - 1) (hcursor : -1 ≤ cursor ∧ cursor ≤ 2 ^ 63 - 1) :
    (∃ b, canonicalJson (.obj (unsignedDigest did generatedAt cursor refs).signingBody) = some b) ↔
      ∀ ref ∈ refs, ref.encodable = true := by
  rw [canonicalJson_isSome, ← Json.encodable_arr]
  have hgen : (Json.int generatedAt).encodable = true := Json.encodable_int (by omega)
  have hcur : (Json.int cursor).encodable = true := Json.encodable_int (by omega)
  simp only [FeedDigest.signingBody, unsignedDigest, List.forall_mem_cons, hgen, hcur, true_and]
  constructor
  · rintro ⟨-, h, -⟩
    exact h
  · intro h
    exact ⟨rfl, h, rfl, fun p hp => absurd hp List.not_mem_nil⟩

/-- From a poll that returns, the digest is built, verifies and refers to just the selected
    announcements, if and only if each of these leaves its unsigned fields as a reference needs
    them. -/
theorem digest_of_poll_iff {offers : Json → OfferLookup H} {listings : TaskAnnouncement → Binding}
    (hstores : q.stores = bindListing offers listings) {limit : Option ℤ} {page generatedAt : ℤ}
    {r : PollResult} (hsince : -1 ≤ since) (hpage : pageLimit limit = .ok page)
    (hpoll : poll H (q.args (some page)) file since = .ok r) (hcursor : r.cursor ≤ 2 ^ 63 - 1)
    (htime : 0 ≤ generatedAt ∧ generatedAt ≤ 2 ^ 63 - 1) (source : H.SecretKey)
    (isOpen : TaskAnnouncement → Bool) :
    (∃ d refs, buildDigest H q file source since limit generatedAt isOpen = .ok d ∧
      verifyDigest H d = .ok () ∧ d.highSeq = .int r.cursor ∧
      refsOf H (selected (asDid H source) isOpen r) = .ok refs ∧ d.refs = .arr refs) ↔
    ∀ a ∈ selected (asDid H source) isOpen r, Announceable a := by
  have hmem : ∀ a ∈ selected (asDid H source) isOpen r,
      verifyAnnouncement H a = .ok () ∧ requireListingBinding q.stores a = .bound := by
    intro a ha
    obtain ⟨x, hx, rfl⟩ := List.mem_map.1 (List.mem_of_mem_filter ha)
    exact mem_poll hpoll hx
  obtain ⟨refs, hrefs, hlen, hall⟩ := refsOf_eq_ok fun a ha => (hmem a ha).1
  have hshare : ∀ a ∈ selected (asDid H source) isOpen r, ∀ key,
      announcementFederationKey H a = .ok key → (Announceable a ↔
        validateDigestRef (refOf a key) = .ok () ∧ (refOf a key).encodable = true) := by
    intro a ha key hkey
    obtain ⟨hv, hb⟩ := hmem a ha
    obtain ⟨key', hkey', hpat⟩ := exists_federationKey hv
    rw [hkey] at hkey'
    cases hkey'
    exact announceable_iff hv hpat fun hk => lt_of_bindListing hk (hstores ▸ hb)
  have hrefsok : (∀ ref ∈ refs, validateDigestRef ref = .ok () ∧ ref.encodable = true) ↔
      ∀ a ∈ selected (asDid H source) isOpen r, Announceable a := by
    rw [hall fun ref => validateDigestRef ref = .ok () ∧ ref.encodable = true]
    refine forall₂_congr fun a ha => ⟨fun h => ?_, fun h key hkey => (hshare a ha key hkey).1 h⟩
    obtain ⟨key, hkey, -⟩ := exists_federationKey (hmem a ha).1
    exact (hshare a ha key hkey).2 (h key hkey)
  have hcount : refs.length ≤ maxDigestRefs := by
    have h₁ : (selected (asDid H source) isOpen r).length ≤ r.announcements.length := by
      rw [selected]
      exact (List.length_filter_le _ _).trans (by rw [List.length_map])
    have h₂ := length_poll (pageLimit_eq_ok hpage).1 hpoll
    have h₃ := (pageLimit_eq_ok hpage).2
    omega
  have hcur : -1 ≤ r.cursor ∧ r.cursor ≤ 2 ^ 63 - 1 := by
    refine ⟨hsince.trans ?_, hcursor⟩
    rw [poll, bind_eq_ok] at hpoll
    obtain ⟨recs, -, h⟩ := hpoll
    obtain ⟨news, hn⟩ := pollLoop_spec (r := ⟨[], since⟩) le_rfl (.inl le_rfl) h
    exact hn.le
  have hbuild : buildDigest H q file source since limit generatedAt isOpen = (do
      let digest := unsignedDigest (asDid H source) generatedAt r.cursor refs
      let _ ← (validateDigestBody digest).mapError fun
        | .reject reason => "invalid digest schema: " ++ reason.text
        | .raises text => text
      let body ← expect (canonicalJson (.obj digest.signingBody)) "not canonical JSON"
      return { digest with digestSig := .str (signText H source body) }) := by
    simp only [buildDigest, require, hsince, decide_true, if_true, hpage, hpoll, hrefs, ok_bind]
  have hbody := validateDigestBody_iff source htime hcur hcount
  have hcanon : (∃ b, canonicalJson
      (.obj (unsignedDigest (asDid H source) generatedAt r.cursor refs).signingBody) = some b) ↔
        ∀ ref ∈ refs, ref.encodable = true :=
    canonicalJson_unsignedDigest (asDid H source) htime hcur
  rw [← hrefsok, forall₂_and, ← hbody, ← hcanon, hbuild]
  simp only [bind_eq_ok, mapError_eq_ok, expect_eq_ok, pure_eq_ok]
  constructor
  · rintro ⟨d, refs', ⟨_, hvalid, body, hb, -⟩, -⟩
    exact ⟨hvalid, body, hb⟩
  · rintro ⟨hvalid, body, hb⟩
    exact ⟨_, refs, ⟨(), hvalid, body, hb, rfl⟩, verifyDigest_signed rfl rfl hvalid hb, rfl, hrefs,
      rfl⟩

/-! ## Digests of a feed -/

/-- The digest of a source is built and verifies, with the references to the polled
    announcements that are the source's own and open, up to the cursor of the poll. -/
def DigestBuilt (H : Host) (q : Reader) (file : Option Bytes) (source : H.SecretKey) (since : ℤ)
    (limit : Option ℤ) (generatedAt : ℤ) (isOpen : TaskAnnouncement → Bool) : Prop :=
  ∃ page r d refs, pageLimit limit = .ok page ∧
    poll H (q.args (some page)) file since = .ok r ∧
    buildDigest H q file source since limit generatedAt isOpen = .ok d ∧
    verifyDigest H d = .ok () ∧ d.highSeq = .int r.cursor ∧
    refsOf H (selected (asDid H source) isOpen r) = .ok refs ∧ d.refs = .arr refs

theorem pageLimit_isOk {limit : Option ℤ} :
    (∃ page, pageLimit limit = .ok page) ↔ ∀ n, limit = some n → 0 ≤ n := by
  unfold pageLimit
  constructor
  · rintro ⟨page, h⟩ n rfl
    dsimp only at h
    split_ifs at h with hn
    exact hn
  · intro h
    cases limit with
    | none => exact ⟨_, rfl⟩
    | some n => exact ⟨_, if_pos (h n rfl)⟩

/-- A feed of published announcements can be polled. -/
theorem poll_published {as : List TaskAnnouncement} (has : ∀ a ∈ as, Admitted H a)
    (hquiet : ∀ a ∈ as, ∀ text, requireListingBinding q.stores a ≠ .raises text)
    (limit : Option ℤ) : ∃ r, poll H (q.args limit) (some (utf8 (content as))) since = .ok r ∧
      (r.cursor = since ∨ r.cursor < as.length) := by
  have hread : readAll (utf8 (content as)) = .ok (as.map fun a => some (.obj a.toDict)) := by
    have h := readAll_content (fun a ha => (has a ha).1) (q := []) (by simp)
    rw [List.append_nil] at h
    rw [h]
    show Except.ok (_ ++ []) = _
    rw [List.append_nil]
  have hparse : ∀ (s : ℕ) raw, (as.map fun a => some (Json.obj a.toDict))[s]? = some raw →
      since < (s : ℤ) → ∃ a, safeParse H q.stores raw = .ok a := by
    intro s raw hs _
    rw [List.getElem?_map, Option.map_eq_some_iff] at hs
    obtain ⟨a, ha, rfl⟩ := hs
    have ha := List.mem_of_getElem? ha
    have hq := hquiet a ha
    simp only [safeParse, fromDict_toDict, (has a ha).2]
    cases hb : requireListingBinding q.stores a with
    | bound => exact ⟨_, rfl⟩
    | refused => exact ⟨_, rfl⟩
    | raises text => exact absurd hb (hq text)
  obtain ⟨r, hr, -, hlt, -⟩ := exists_poll hread hparse le_rfl limit
  exact ⟨r, hr, by simpa using hlt⟩

/-- **One bad record blocks a digest.**  From a feed of published announcements a digest is
    built if and only if its arguments are in range and each announcement that it would refer
    to leaves its unsigned fields as a reference needs them. -/
theorem digest_built_iff {as : List TaskAnnouncement} (has : ∀ a ∈ as, Admitted H a)
    (hlines : as.length ≤ 2 ^ 63)
    (hquiet : ∀ a ∈ as, ∀ text, requireListingBinding q.stores a ≠ .raises text)
    {offers : Json → OfferLookup H} {listings : TaskAnnouncement → Binding}
    (hstores : q.stores = bindListing offers listings) {generatedAt : ℤ}
    (htime : 0 ≤ generatedAt ∧ generatedAt ≤ 2 ^ 63 - 1) (source : H.SecretKey)
    (isOpen : TaskAnnouncement → Bool) (since : ℤ) (limit : Option ℤ) :
    DigestBuilt H q (some (utf8 (content as))) source since limit generatedAt isOpen ↔
      -1 ≤ since ∧ since ≤ 2 ^ 63 - 1 ∧ (∀ n, limit = some n → 0 ≤ n) ∧
        ∀ page r, pageLimit limit = .ok page →
          poll H (q.args (some page)) (some (utf8 (content as))) since = .ok r →
          ∀ a ∈ selected (asDid H source) isOpen r, Announceable a := by
  rw [← pageLimit_isOk]
  constructor
  · rintro ⟨page, r, d, refs, hpage, hpoll, hbuild, hverify, hhigh, hrefs, hd⟩
    have hsince : -1 ≤ since := by
      rw [buildDigest, unit_bind_eq_ok, require_eq_ok, decide_eq_true_eq] at hbuild
      exact hbuild.1
    have hcursor : r.cursor ≤ 2 ^ 63 - 1 := by
      simp only [verifyDigest, validateDigestBody, unit_bind_eq_ok, require_eq_ok] at hverify
      obtain ⟨-, ⟨-, -, -, h, -⟩, -⟩ := hverify
      rw [hhigh] at h
      simp only [Bool.and_eq_true, decide_eq_true_eq] at h
      exact h.2
    have hle : since ≤ r.cursor := by
      have h := hpoll
      rw [poll, bind_eq_ok] at h
      obtain ⟨recs, -, h⟩ := h
      obtain ⟨news, hn⟩ := pollLoop_spec (r := ⟨[], since⟩) le_rfl (.inl le_rfl) h
      exact hn.le
    refine ⟨hsince, hle.trans hcursor, ⟨page, hpage⟩, fun page' r' hpage' hpoll' => ?_⟩
    cases hpage.symm.trans hpage'
    cases hpoll.symm.trans hpoll'
    exact (digest_of_poll_iff hstores hsince hpage hpoll hcursor htime source isOpen).1
      ⟨d, refs, hbuild, hverify, hhigh, hrefs, hd⟩
  · rintro ⟨hsince, hbound, ⟨page, hpage⟩, hall⟩
    obtain ⟨r, hpoll, hcur⟩ : ∃ r,
        poll H (q.args (some page)) (some (utf8 (content as))) since = .ok r ∧
          (r.cursor = since ∨ r.cursor < as.length) := poll_published has hquiet (some page)
    obtain ⟨d, refs, h⟩ := (digest_of_poll_iff hstores hsince hpage hpoll (by omega) htime source
      isOpen).2 (hall page r hpage hpoll)
    exact ⟨page, r, d, refs, hpage, hpoll, h⟩

/-! ## A record that blocks the digests of its source -/

/-- A reader with no offers and no listings. -/
def emptyReader : Reader :=
  { now := 5, stores := bindListing (fun _ => OfferLookup.absent (H := legacyHost)) fun _ => .refused }

theorem emptyReader_stores : emptyReader.stores =
    bindListing (fun _ => OfferLookup.absent (H := legacyHost)) fun _ => .refused := rfl

/-- The record with the authority `"x"` is in the feed. -/
theorem admitted_legacySample : ∀ a ∈ [legacySample "x"], Admitted legacyHost a := by
  intro a ha
  rw [List.mem_singleton.1 ha]
  exact ⟨⟨legacySample_wf.2, by decide⟩, legacyChecks.down.2⟩

theorem quiet_legacySample : ∀ a ∈ [legacySample "x"], ∀ text,
    requireListingBinding emptyReader.stores a ≠ .raises text := by
  intro a ha text
  rw [List.mem_singleton.1 ha, requireListingBinding, if_neg (by decide)]
  intro h
  cases h

/-- A poll of the feed returns it. -/
theorem poll_legacySample : poll legacyHost (emptyReader.args (some 1000))
    (some (utf8 (content [legacySample "x"]))) (-1) = .ok ⟨[(0, legacySample "x")], 0⟩ := by
  have hread := readAll_line (admitted_legacySample _ (List.mem_singleton_self _)).1
  have hcontent : content [legacySample "x"] = payload (legacySample "x") ++ ['\n'] :=
    content_concat [] _
  have hbound : requireListingBinding emptyReader.stores (legacySample "x") = .bound := by
    rw [requireListingBinding, if_neg (by decide)]
  have hsafe : safeParse legacyHost emptyReader.stores (some (.obj (legacySample "x").toDict)) =
      .ok (some (legacySample "x")) := by
    simp only [safeParse, fromDict_toDict, legacyChecks.down.2, hbound]
  have hstores : (emptyReader.args (some 1000)).stores 0 = emptyReader.stores := rfl
  rw [hcontent, ← lineBytes, poll_eq hread, pollLoop, if_neg (by decide), hstores, hsafe]
  rfl

/-- **One published record blocks every digest of its source**: it says something else than a
    `did:key` of its authority, which its signature does not cover. -/
theorem digest_blocked : ¬ DigestBuilt legacyHost emptyReader
    (some (utf8 (content [legacySample "x"]))) (1 : UInt8) (-1) none 1 fun _ => true := by
  rintro ⟨page, r, d, refs, hpage, hpoll, hbuild, hverify, hhigh, hrefs, hd⟩
  cases hpage
  cases poll_legacySample.symm.trans hpoll
  have hall := (digest_of_poll_iff emptyReader_stores (by decide) rfl poll_legacySample (by decide) (by decide) _
    _).1 ⟨d, refs, hbuild, hverify, hhigh, hrefs, hd⟩
  have hmem : legacySample "x" ∈ selected (asDid legacyHost (1 : UInt8)) (fun _ => true)
      ⟨[(0, legacySample "x")], 0⟩ := by
    refine List.mem_filter.2 ⟨List.mem_singleton_self _, ?_⟩
    rw [Bool.and_true, Json.eqStr_iff]
    rfl
  have hdid := ((hall _ hmem).1 rfl).2 (by decide)
  exact absurd hdid (by decide)

/-- The theorem on this feed. -/
theorem digest_built_sample : DigestBuilt legacyHost emptyReader
    (some (utf8 (content [legacySample "x"]))) (1 : UInt8) (-1) none 1 (fun _ => true) ↔
      -1 ≤ (-1 : ℤ) ∧ (-1 : ℤ) ≤ 2 ^ 63 - 1 ∧ (∀ n, (none : Option ℤ) = some n → 0 ≤ n) ∧
        ∀ page r, pageLimit none = .ok page →
          poll legacyHost (emptyReader.args (some page))
            (some (utf8 (content [legacySample "x"]))) (-1) = .ok r →
          ∀ a ∈ selected (asDid legacyHost (1 : UInt8)) (fun _ => true) r, Announceable a :=
  digest_built_iff admitted_legacySample (by decide) quiet_legacySample emptyReader_stores
    (by decide) (1 : UInt8) (fun _ => true) (-1) none

end Market

end NthDao
