import NirnProxy.Base64
import NirnProxy.Client.Admission
import NirnProxy.Routes.Hash
import NirnProxy.Text

/-! How a request path names its rate-limit route: the two ways in which the prefix of the API is
taken off, the bucket path, the major parameter and the hashes made of them. -/

namespace NirnProxy

open Strings (ascii after before hasPrefix trimPrefix)

def discordEpochMilliseconds : Nat := 1420070400000

def interactionTokenPrefix : List UInt8 := ascii "aW50ZXJhY3Rpb246"

def majorChannels : List UInt8 := ascii "channels"

def majorGuilds : List UInt8 := ascii "guilds"

def majorWebhooks : List UInt8 := ascii "webhooks"

def majorInvites : List UInt8 := ascii "invites"

def majorInteractions : List UInt8 := ascii "interactions"

def slash : UInt8 := 47

def isNumericInput (value : List UInt8) : Bool := value ≠ [] && value.all Text.isDigit

def isSnowflake (value : List UInt8) : Bool :=
  if value.length < 17 ∨ 20 < value.length then false else isNumericInput value

/-- The instant a snowflake carries; one that does not fit into 64 bits yields the current time. -/
def snowflakeCreatedAt (now : Int) (snowflake : List UInt8) : Int :=
  match Text.parseDigits snowflake with
  | none => now
  | some parsedID =>
    if parsedID < 2 ^ 64 then
      unixEpoch + ((parsedID >>> 22 + discordEpochMilliseconds) / 1000 : Nat) * Duration.second
    else now

/-- The path without query and API prefix, as `GetOptimisticBucketPath` takes them off. -/
def cleanPath (path : List UInt8) : List UInt8 :=
  let cleanPath := before 63 path
  let versioned := trimPrefix cleanPath (ascii "/api/v")
  if versioned ≠ cleanPath then
    if slash ∈ versioned ∧ isNumericInput (before slash versioned) then after slash versioned
    else trimPrefix cleanPath (ascii "/api/")
  else
    let unversioned := trimPrefix cleanPath (ascii "/api/")
    if unversioned ≠ cleanPath then unversioned else trimPrefix cleanPath [slash]

def messageAge (now : Int) (part : List UInt8) : List UInt8 :=
  let createdAt := snowflakeCreatedAt now part
  if createdAt < now - 14 * 24 * Duration.hour then ascii "/!14dmsg"
  else if now - 10 * Duration.second < createdAt then ascii "/!10smsg"
  else []

/-- An interaction token filled up to whole groups of four symbols. -/
def padToken (token : List UInt8) : List UInt8 :=
  if token.length % 4 = 0 then token
  else token ++ List.replicate (4 - token.length % 4) Base64.padding

def idField (decoded : List UInt8) : List UInt8 := before 58 (after 58 decoded)

def interactionID (part : List UInt8) : List UInt8 :=
  match Base64.decodeString (padToken part) with
  | none => ascii "Unknown"
  | some decoded => if idField decoded = [] then ascii "Unknown" else idField decoded

/-- The loop over the remaining parts.  `index` is that of the loop, and `previous` is
`parts[index+1]`, the part before the current one. -/
def remainingPath (now : Int) (method currentMajor : List UInt8) :
    Nat → List UInt8 → List (List UInt8) → List UInt8
  | _, _, [] => []
  | index, previous, part :: parts =>
    let next := remainingPath now method currentMajor (index + 1) part parts
    if isSnowflake part then
      if currentMajor = majorChannels ∧ previous = ascii "messages" ∧ method = ascii "DELETE" ∧
          parts = [] then messageAge now part ++ next
      else ascii "/!" ++ next
    else if currentMajor = majorChannels ∧ part = ascii "reactions" then
      -- the loop ends here
      if method = ascii "PUT" ∨ method = ascii "DELETE" then ascii "/reactions/!modify"
      else ascii "/reactions/!/!"
    else if (index = 0 ∧ (currentMajor = majorWebhooks ∨ currentMajor = majorInteractions)) ∨
        64 ≤ part.length then
      if hasPrefix part interactionTokenPrefix then slash :: interactionID part ++ next
      else ascii "/!" ++ next
    else slash :: part ++ next

/-- The first two parts of the bucket path; the second is kept, or replaced by `!`. -/
def resourcePath (first second : List UInt8) : List UInt8 :=
  if first = ascii "users" then
    slash :: first ++ slash :: (if isSnowflake second then ascii "!" else second)
  else if first = majorInvites then slash :: first ++ ascii "/!"
  else slash :: first ++ slash :: second

/-- `guilds` falls through to the case of `interactions`. -/
def getOptimisticBucketPath (now : Int) (path method : List UInt8) : List UInt8 :=
  match (cleanPath path).splitOn slash with
  | first :: second :: parts =>
    if (first = majorGuilds ∨ first = majorInteractions) ∧ parts.length = 2 ∧
        parts[1]? = some (ascii "callback") then
      slash :: majorInteractions ++ slash :: second ++ ascii "/!/callback"
    else resourcePath first second ++ remainingPath now method first 0 second parts
  | _ => cleanPath path

def isVersion (part : List UInt8) : Bool :=
  match part with
  | 118 :: digits => isNumericInput digits
  | _ => false

def dropAPIPrefix : List (List UInt8) → List (List UInt8)
  | [] => []
  | first :: parts =>
    if first = ascii "api" then
      match parts with
      | version :: rest => if isVersion version then rest else parts
      | [] => parts
    else first :: parts

def cleanAPIPath (path : List UInt8) : List (List UInt8) :=
  dropAPIPrefix ((trimPrefix (before 63 path) [slash]).splitOn slash)

def majorParameter (path : List UInt8) : List UInt8 :=
  match cleanAPIPath path with
  | first :: second :: parts =>
    if first = majorChannels ∨ first = majorGuilds then first ++ 58 :: second
    else if first = majorWebhooks then
      match parts with
      | token :: _ => first ++ 58 :: second ++ 58 :: Text.itoa (hashCRC64 token).toNat
      | [] => first ++ 58 :: second
    else []
  | _ => []

def isInteractionEndpoint (path : List UInt8) : Bool :=
  let parts := cleanAPIPath path
  if parts[0]? = some majorInteractions ∧ parts[3]? = some (ascii "callback") then true
  else parts[0]? = some majorWebhooks && (parts[2]?).any (hasPrefix · interactionTokenPrefix)

def routeHash (method bucketPath majorKey : List UInt8) : UInt64 :=
  hashCRC64 (method ++ 0 :: bucketPath ++ 0 :: majorKey)

def affinityHash (identity : Identity (Vector UInt8 32)) (bucketPath : List UInt8)
    (interaction : Bool) : UInt64 :=
  if identity.kind = .none then
    if interaction then hashCRC64 bucketPath else hashCRC64 (ascii "no-auth-egress")
  else UInt64.ofNat (Text.bigEndian (identity.key.toList.take 8))

end NirnProxy
