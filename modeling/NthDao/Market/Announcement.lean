/-
  Task announcements (`nth_dao/market/announcement.py`).

  A publisher signs a task, a listing or a trade offer that strangers may find.

  * `toDict`, `fromDict`: the wire form; unknown fields are refused and missing
    ones get their defaults;
  * `signingBody`: what the signature covers, by the version of the record;
  * `verifyAnnouncement`: the checks, in their order;
  * `fromDict_toDict`: the wire form reads back.

  A `str` with a lone surrogate is no text, and raises where its bytes are counted.
-/
import NthDao.CapToken
import NthDao.CanonicalJson
import NthDao.Identity
import NthDao.Py.Check
import NthDao.Py.Loads
import NthDao.Py.Str

namespace NthDao

open Py

namespace Market

variable (H : Host)

/-! ## Records -/

def kindV1 : String := "nth-task-announcement-v1"
def kindV2 : String := "nth-task-announcement-v2"
def kindV3 : String := "nth-task-announcement-v3"
def kindTradeOffer : String := "nth-trade-offer-announcement-v1"

/-- `TaskAnnouncement`; the values may have any type until they are verified. -/
structure TaskAnnouncement where
  announcementId : Json
  publisherDid : Json
  title : Json
  authorityDid : Json
  listingType : Json
  offerDigest : Json
  offerUri : Json
  priceMinor : Json
  priceAsset : Json
  availabilitySummary : Json
  capabilitySet : Json
  context : Json
  inputSchema : Json
  acceptance : Json
  rewardMinor : Json
  rewardAsset : Json
  missionId : Json
  claimantPolicy : Json
  description : Json
  publishedAtMs : Json
  notAfter : Json
  kind : Json
  publisherSig : Json
  deriving DecidableEq

/-- The fields of the dataclass, in their order. -/
def announcementFields : List String :=
  ["announcement_id", "publisher_did", "title", "authority_did", "listing_type", "offer_digest",
    "offer_uri", "price_minor", "price_asset", "availability_summary", "capability_set", "context",
    "input_schema", "acceptance", "reward_minor", "reward_asset", "mission_id", "claimant_policy",
    "description", "published_at_ms", "not_after", "kind", "publisher_sig"]

namespace TaskAnnouncement

variable (a : TaskAnnouncement)

/-- The values of the fields, in their order. -/
def values : List Json :=
  [a.announcementId, a.publisherDid, a.title, a.authorityDid, a.listingType, a.offerDigest,
    a.offerUri, a.priceMinor, a.priceAsset, a.availabilitySummary, a.capabilitySet, a.context,
    a.inputSchema, a.acceptance, a.rewardMinor, a.rewardAsset, a.missionId, a.claimantPolicy,
    a.description, a.publishedAtMs, a.notAfter, a.kind, a.publisherSig]

/-- `to_dict`. -/
def toDict : Fields := announcementFields.zip a.values

/-- `from_dict`, `none` where it raises: an unknown field, or a required one is missing. -/
def fromDict (data : Fields) : Option TaskAnnouncement := do
  guard (data.all fun p => announcementFields.contains p.1)
  let announcementId ← Json.lookup data "announcement_id"
  let publisherDid ← Json.lookup data "publisher_did"
  let title ← Json.lookup data "title"
  return {
    announcementId := announcementId
    publisherDid := publisherDid
    title := title
    authorityDid := Json.getD data "authority_did" (.str "")
    listingType := Json.getD data "listing_type" (.str "")
    offerDigest := Json.getD data "offer_digest" (.str "")
    offerUri := Json.getD data "offer_uri" (.str "")
    priceMinor := Json.getD data "price_minor" (.int 0)
    priceAsset := Json.getD data "price_asset" (.str "")
    availabilitySummary := Json.getD data "availability_summary" (.obj [])
    capabilitySet := Json.getD data "capability_set" (.arr [])
    context := Json.getD data "context" (.str "general")
    inputSchema := Json.getD data "input_schema" (.obj [])
    acceptance := Json.getD data "acceptance" (.obj [])
    rewardMinor := Json.getD data "reward_minor" (.int 0)
    rewardAsset := Json.getD data "reward_asset" (.str "credit")
    missionId := Json.getD data "mission_id" (.str "")
    claimantPolicy := Json.getD data "claimant_policy" (.obj [])
    description := Json.getD data "description" (.str "")
    publishedAtMs := Json.getD data "published_at_ms" (.int 0)
    notAfter := Json.getD data "not_after" (.int 0)
    kind := Json.getD data "kind" (.str kindV2)
    publisherSig := Json.getD data "publisher_sig" (.str "") }

/-- `kind in {v1, v2}`. -/
def legacy : Bool := a.kind.eqStr kindV1 || a.kind.eqStr kindV2

/-- The fields that the version of the record leaves unsigned. -/
def unsignedFields : List String :=
  (if a.legacy then
    ["listing_type", "offer_digest", "offer_uri", "price_minor", "price_asset",
      "availability_summary"]
  else []) ++ if a.kind.eqStr kindV1 then ["authority_did"] else []

/-- `signing_body`. -/
def signingBody : Fields :=
  a.toDict.filter fun p => p.1 != "publisher_sig" && !a.unsignedFields.contains p.1

/-- `effective_authority_did`. -/
def effectiveAuthorityDid : Json :=
  if a.kind.eqStr kindV1 then a.publisherDid else a.authorityDid

/-- `is_expired` of a verified record, at the time `now`. -/
def isExpired (now : ℤ) : Bool :=
  match a.notAfter with
  | .int n => n != 0 && n < now
  | _ => false

end TaskAnnouncement

/-! ## Checks of the fields -/

/-- The reasons of `verify_announcement`. -/
inductive AnnReject where
  | missingField | badPublisherDid | sigInvalid | sigDecodeFailed | schemaInvalid
  deriving DecidableEq

/-- The texts of the reasons. -/
def AnnReject.text : AnnReject → String
  | missingField => "ann-missing-field"
  | badPublisherDid => "ann-bad-publisher-did"
  | sigInvalid => "ann-sig-invalid"
  | sigDecodeFailed => "ann-sig-decode-failed"
  | schemaInvalid => "ann-schema-invalid"

/-- A record is not accepted: a reason is returned, or an exception leaves the check. -/
inductive AnnFailure where
  | reject (reason : AnnReject)
  | raises (text : String)
  deriving DecidableEq

/-- `_bounded_text`. -/
def boundedText (v : Json) (minimum maximum : ℕ) : Bool :=
  match v with
  | .str s => minimum ≤ (utf8 (chars s)).length && (utf8 (chars s)).length ≤ maximum
  | _ => false

/-- A `str` with a lone surrogate, as it is read. -/
def loneSurrogate : Json := strVal [0xd800]

/-- `value.encode("utf-8")` of the text that `_bounded_text` measures. -/
def encodable (v : Json) : Except AnnFailure Unit :=
  require (v != loneSurrogate) (.raises "surrogates not allowed")

/-- The first element of a list that is no text of these lengths, where `any` stops. -/
def firstUnbounded (v : Json) (minimum maximum : ℕ) : Json :=
  match v with
  | .arr xs => (xs.find? fun c => !boundedText c minimum maximum).getD .null
  | _ => .null

/-- `_bounded_json_object`. -/
def boundedJsonObject (v : Json) (maximum : ℕ) : Bool :=
  v.isObj && match canonicalJson v with
    | some b => b.length ≤ maximum
    | none => false

/-- `_valid_non_negative_int`. -/
def validNonNegativeInt (v : Json) : Bool :=
  match v with
  | .int n => 0 ≤ n && n ≤ 2 ^ 63 - 1
  | _ => false

/-- `[A-Za-z0-9_:-]`. -/
def idHeadChar (c : Char) : Bool := c.isAlphanum || c == '_' || c == ':' || c == '-'

/-- `[A-Za-z0-9_:-][A-Za-z0-9._:-]{0,255}`. -/
def idPattern : List Char → Bool
  | [] => false
  | c :: cs => idHeadChar c && cs.length ≤ 255 && cs.all fun d => idHeadChar d || d == '.'

/-- `_valid_announcement_id`. -/
def validAnnouncementId (a : TaskAnnouncement) : Bool :=
  match a.announcementId with
  | .str s =>
    boundedText (.str s) 1 256 && s != "." && s != ".." &&
      if a.kind.eqStr kindV1 then (chars s).all H.isprintable else idPattern (chars s)
  | _ => false

/-- A `did:key` of bounded length. -/
def boundedDid (v : Json) : Bool :=
  boundedText v 1 128 && match v with
    | .str s => isDidKey s
    | _ => false

/-- `sha256:[0-9a-f]{64}`. -/
def offerDigestPattern (v : Json) : Bool :=
  match v with
  | .str s => startsWith "sha256:" s && isHex 64 ((chars s).drop 7)
  | _ => false

/-- `v == 0`. -/
def eqZero : Json → Bool
  | .other t => !truthy (.other t)
  | v => v.eqInt 0

/-- `v == {}`. -/
def eqEmptyObj : Json → Bool
  | .obj [] => true
  | _ => false

/-- `isinstance(v, list)` of at most `n` elements that all pass `p`. -/
def boundedList (v : Json) (n : ℕ) (p : Json → Bool) : Bool :=
  match v with
  | .arr xs => xs.length ≤ n && xs.all p
  | _ => false

/-! ## The schema -/

variable (a : TaskAnnouncement)

/-- The commerce fields of a listing. -/
def checkListingV3 : Except AnnFailure Unit := do
  require (!CapToken.unhashable a.listingType) (.raises "unhashable type")
  require (a.listingType.eqStr "product" || a.listingType.eqStr "service") (.reject .schemaInvalid)
  require (offerDigestPattern a.offerDigest) (.reject .schemaInvalid)
  encodable a.offerUri
  require (boundedText a.offerUri 1 2048) (.reject .schemaInvalid)
  require (validNonNegativeInt a.priceMinor) (.reject .schemaInvalid)
  encodable a.priceAsset
  require (boundedText a.priceAsset 1 64) (.reject .schemaInvalid)
  require (boundedJsonObject a.availabilitySummary (4 * 1024)) (.reject .schemaInvalid)
  require (eqv a.priceMinor a.rewardMinor && eqv a.priceAsset a.rewardAsset)
    (.reject .schemaInvalid)

/-- The commerce fields of a trade offer. -/
def checkTradeOffer : Except AnnFailure Unit := do
  require (a.listingType.eqStr "exchange") (.reject .schemaInvalid)
  require (offerDigestPattern a.offerDigest) (.reject .schemaInvalid)
  encodable a.offerUri
  require (boundedText a.offerUri 1 2048) (.reject .schemaInvalid)
  require (a.offerUri.eqStr
    ("/api/v2/trade/federation/offers/" ++ toStr H.isprintable a.offerDigest))
    (.reject .schemaInvalid)
  require (eqZero a.priceMinor && a.priceAsset.eqStr "") (.reject .schemaInvalid)
  require (eqZero a.rewardMinor && a.rewardAsset.eqStr "exchange") (.reject .schemaInvalid)
  require (boundedJsonObject a.availabilitySummary (4 * 1024)) (.reject .schemaInvalid)
  let summary := a.availabilitySummary.fields
  require (boundedText (Json.get summary "offer_id") 3 256) (.reject .schemaInvalid)
  require (match Json.get summary "revision" with
    | .int n => 1 ≤ n && n ≤ 2147483647
    | _ => false) (.reject .schemaInvalid)
  require ((Json.get summary "state").eqStr "active") (.reject .schemaInvalid)

/-- A task has no commerce fields. -/
def checkNoListing : Except AnnFailure Unit :=
  require (a.listingType.eqStr "" && a.offerDigest.eqStr "" && a.offerUri.eqStr "" &&
    eqZero a.priceMinor && a.priceAsset.eqStr "" && eqEmptyObj a.availabilitySummary)
    (.reject .schemaInvalid)

/-- The text of the signature: canonical, of 64 bytes. -/
def checkSigText : Except AnnFailure Unit := do
  encodable a.publisherSig
  require (boundedText a.publisherSig 1 128) (.reject .missingField)
  let sig := toStr H.isprintable a.publisherSig
  let decoded ← expect (b64uDecode sig) (.reject .sigDecodeFailed)
  require (decoded.length == 64 && b64uEncode decoded == sig) (.reject .sigDecodeFailed)

/-- `_validate_announcement_schema`. -/
def validateAnnouncementSchema : Except AnnFailure Unit := do
  require (!CapToken.unhashable a.kind) (.raises "unhashable type")
  require (a.legacy || a.kind.eqStr kindV3 || a.kind.eqStr kindTradeOffer) (.reject .schemaInvalid)
  encodable a.announcementId
  require (validAnnouncementId H a) (.reject .schemaInvalid)
  encodable a.publisherDid
  require (boundedDid a.publisherDid) (.reject .badPublisherDid)
  encodable a.effectiveAuthorityDid
  require (boundedDid a.effectiveAuthorityDid) (.reject .badPublisherDid)
  if a.kind.eqStr kindV3 then checkListingV3 a
  else if a.kind.eqStr kindTradeOffer then checkTradeOffer H a
  else checkNoListing a
  encodable a.title
  require (boundedText a.title 1 512) (.reject .schemaInvalid)
  encodable a.description
  require (boundedText a.description 0 (64 * 1024)) (.reject .schemaInvalid)
  require (boundedList a.capabilitySet 64 fun _ => true) (.reject .schemaInvalid)
  encodable (firstUnbounded a.capabilitySet 1 128)
  require (boundedList a.capabilitySet 64 fun c => boundedText c 1 128) (.reject .schemaInvalid)
  encodable a.context
  require (boundedText a.context 1 128) (.reject .schemaInvalid)
  require (boundedJsonObject a.inputSchema (64 * 1024)) (.reject .schemaInvalid)
  require (boundedJsonObject a.acceptance (64 * 1024)) (.reject .schemaInvalid)
  require (boundedJsonObject a.claimantPolicy (64 * 1024)) (.reject .schemaInvalid)
  require (validNonNegativeInt a.rewardMinor) (.reject .schemaInvalid)
  encodable a.rewardAsset
  require (boundedText a.rewardAsset 1 64) (.reject .schemaInvalid)
  encodable a.missionId
  require (boundedText a.missionId 0 256) (.reject .schemaInvalid)
  require (validNonNegativeInt a.publishedAtMs) (.reject .schemaInvalid)
  require (validNonNegativeInt a.notAfter) (.reject .schemaInvalid)
  checkSigText H a

/-! ## Verification -/

/-- A required value: not `None`, not a blank text. -/
def present : Json → Bool
  | .null => false
  | .str s => !(chars s).all isSpace
  | _ => true

/-- `verify_announcement`. -/
def verifyAnnouncement : Except AnnFailure Unit := do
  require ([a.kind, a.announcementId, a.publisherDid, a.title, a.publisherSig].all present)
    (.reject .missingField)
  validateAnnouncementSchema H a
  let publisherDid ← expect a.publisherDid.asStr (.reject .badPublisherDid)
  let pubkey ← expect (decodeDidKey publisherDid) (.reject .badPublisherDid)
  let sig ← expect (b64uDecode (toStr H.isprintable a.publisherSig)) (.reject .sigDecodeFailed)
  let payload ← expect (canonicalJson (.obj a.signingBody)) (.reject .sigInvalid)
  require (H.verify pubkey payload sig) (.reject .sigInvalid)

/-! ## The wire form -/

variable {a}

theorem map_fst_toDict : a.toDict.map Prod.fst = announcementFields := rfl

theorem nodup_announcementFields : announcementFields.Nodup := by decide

/-- The wire form reads back. -/
theorem fromDict_toDict (a : TaskAnnouncement) : TaskAnnouncement.fromDict a.toDict = some a := by
  rfl

theorem wf_toDict : (Json.obj a.toDict).wf = true ↔ ∀ v ∈ a.values, v.wf = true := by
  rw [Json.wf_obj, map_fst_toDict]
  have hv : a.toDict.map Prod.snd = a.values := rfl
  rw [← hv, List.forall_mem_map]
  exact and_iff_right nodup_announcementFields

end Market

end NthDao
