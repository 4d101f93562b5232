/-
  Trade offers behind announcements (`market/trade_offer_announcement.py`, `market/feed.py`).

  An announcement of a trade offer is bound to the offer of its digest in the local store.

  * `verifyTradeOfferAnnouncementBinding`: the comparison with a verified offer;
  * `bindListing`: what `require_listing_binding` makes of the offer store;
  * `lt_of_bindListing`: a bound announcement ends after it was published.
-/
import NthDao.Market.Feed
import NthDao.TradeRules.Offer

namespace NthDao

open Py TradeRules

namespace Market

variable (H : Host)

/-! ## The binding -/

/-- The seconds of the Unix epoch on the scale of `realTime`. -/
def epochSeconds : ℕ := (realTime 1970 1 1 0 0 0).getD 0

/-- `_timestamp_ms` of a timestamp of a verified offer. -/
def timestampMs (value : Json) (label : String) (roundUp : Bool) : Except String ℤ := do
  let nanos ← timestampValue value label
  return ((nanos + if roundUp then 999999 else 0) / 1000000 : ℕ) - 1000 * epochSeconds

def maxTradeOfferAnnouncementTtlMs : ℤ := 24 * 60 * 60 * 1000

/-- `_RESERVED_AVAILABILITY_FIELDS`. -/
def reservedAvailabilityFields : List String := ["offer_id", "revision", "state"]

/-- An `int` of a verified announcement. -/
def msOf (v : Json) : ℤ := v.asInt.getD 0

variable {H}

/-- The fields that repeat the offer. -/
def checkExpectedFields (offer : TradeOffer H) (a : TaskAnnouncement) : Except String Unit := do
  let mismatch := fun field => "Trade Offer announcement binding mismatch: " ++ field
  require (eqv a.publisherDid (offer.field "publisher_did")) (mismatch "publisher_did")
  require (eqv a.authorityDid (offer.field "publisher_did")) (mismatch "authority_did")
  require (eqv a.title (offer.field "title")) (mismatch "title")
  require (eqv a.description (offer.field "summary")) (mismatch "description")
  require (a.context.eqStr "trade") (mismatch "context")
  require (a.listingType.eqStr "exchange") (mismatch "listing_type")
  require (a.offerDigest.eqStr (offerDigest offer)) (mismatch "offer_digest")
  require (a.offerUri.eqStr ("/api/v2/trade/federation/offers/" ++ offerDigest offer))
    (mismatch "offer_uri")
  require (eqZero a.priceMinor) (mismatch "price_minor")
  require (a.priceAsset.eqStr "") (mismatch "price_asset")
  require (eqZero a.rewardMinor) (mismatch "reward_minor")
  require (a.rewardAsset.eqStr "exchange") (mismatch "reward_asset")

/-- The times within those of the offer. -/
def checkLifetime (offer : TradeOffer H) (a : TaskAnnouncement) : Except String Unit := do
  let offerPublishedMs ← timestampMs (offer.field "published_at") "Offer published_at" true
  let offerExpiryMs ← timestampMs (offer.field "not_after") "Offer not_after" false
  require (offerPublishedMs ≤ msOf a.publishedAtMs) "announcement predates the Trade Offer"
  require (msOf a.publishedAtMs < msOf a.notAfter && msOf a.notAfter ≤ offerExpiryMs)
    "announcement expiry is outside the Trade Offer lifetime"
  require (msOf a.notAfter - msOf a.publishedAtMs ≤ maxTradeOfferAnnouncementTtlMs)
    "Trade Offer announcement lifetime exceeds 24 hours"

/-- `verify_trade_offer_announcement_binding` of a verified offer; the error is the reason. -/
def verifyTradeOfferAnnouncementBinding (offer : TradeOffer H) (a : TaskAnnouncement) :
    Except String Unit := do
  require (verifyAnnouncement H a == .ok ()) "announcement verification failed"
  require (a.kind.eqStr kindTradeOffer) "announcement is not a Trade Offer discovery hint"
  checkExpectedFields offer a
  require ((offer.field "state").eqStr "active" && offer.field "not_after" != .null)
    "announced Trade Offer is not active and expiring"
  checkLifetime offer a
  require (reservedAvailabilityFields.all fun f =>
      eqv (Json.get a.availabilitySummary.fields f) (offer.field f))
    "availability summary does not bind the Offer"

/-- What the offer store says of a digest. -/
inductive OfferLookup (H : Host) where
  /-- an `OfferStoreError` -/
  | unverifiable
  | absent
  /-- an offer; whether it is the canonical head, and whether it is active now -/
  | found (offer : TradeOffer H) (canonicalHead active : Bool)
  | raises (text : String)

/-- `require_listing_binding` behind the test of the kind: a trade offer is looked up in its
    store, the other listings in `listings`. -/
def bindListing (offers : Json → OfferLookup H) (listings : TaskAnnouncement → Binding)
    (a : TaskAnnouncement) : Binding :=
  if a.kind.eqStr kindTradeOffer then
    match offers a.offerDigest with
    | .unverifiable => .refused
    | .absent => .refused
    | .raises text => .raises text
    | .found offer canonicalHead active =>
      if !canonicalHead then .refused
      else if !active then .refused
      else
        match verifyTradeOfferAnnouncementBinding offer a with
        | .ok _ => .bound
        | .error _ => .refused
  else listings a

/-! ## What it guarantees -/

theorem lt_of_checkLifetime {offer : TradeOffer H} {a : TaskAnnouncement}
    (h : checkLifetime offer a = .ok ()) : msOf a.publishedAtMs < msOf a.notAfter := by
  simp only [checkLifetime, bind_eq_ok, require_eq_ok, Bool.and_eq_true, decide_eq_true_eq] at h
  obtain ⟨_, -, _, -, -, -, -, h, -⟩ := h
  exact h.1

theorem lt_of_binding {offer : TradeOffer H} {a : TaskAnnouncement}
    (h : verifyTradeOfferAnnouncementBinding offer a = .ok ()) :
    msOf a.publishedAtMs < msOf a.notAfter := by
  simp only [verifyTradeOfferAnnouncementBinding, unit_bind_eq_ok] at h
  obtain ⟨-, -, -, -, h, -⟩ := h
  exact lt_of_checkLifetime h

/-- **A bound announcement of a trade offer ends after it was published.** -/
theorem lt_of_bindListing {offers : Json → OfferLookup H} {listings : TaskAnnouncement → Binding}
    {a : TaskAnnouncement} (hk : a.kind = .str kindTradeOffer)
    (h : requireListingBinding (bindListing offers listings) a = .bound) :
    msOf a.publishedAtMs < msOf a.notAfter := by
  have hkind : a.kind.eqStr kindTradeOffer = true := Json.eqStr_iff.2 hk
  rw [requireListingBinding, hkind, Bool.or_true, if_pos rfl, bindListing, hkind, if_pos rfl] at h
  split at h
  · cases h
  · cases h
  · cases h
  · split_ifs at h
    split at h
    · rename_i u hb
      exact lt_of_binding hb
    · cases h

end Market

end NthDao
