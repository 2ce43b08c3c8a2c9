import NirnProxy.Contexts
import NirnProxy.Scheduler.Remembered

/-! What the proxy answers: the response writer, the errors of `RoundTrip` as `errors.Is` sees them,
and the error handler that turns them into responses. -/

namespace NirnProxy

open Strings (ascii)

/-- A response as `ReverseProxy` copies it, without the headers that concern one connection only. -/
structure HttpResponse where
  status : Nat
  header : List (List UInt8 × List UInt8)
  body : List UInt8
  deriving DecidableEq

def SyntheticResponse.http (r : SyntheticResponse) : HttpResponse :=
  ⟨r.statusCode, r.header, r.body⟩

def unauthorizedResponse : SyntheticResponse :=
  syntheticResponse 401 (ascii "Unauthorized")
    (ascii "\x7b\n\t\"message\": \"401: Unauthorized\",\n\t\"code\": 0\n\x7d")

theorem status_remembered (delay : Int) (global : Bool) :
    (rememberedRateLimitResponse delay global).http.status = 429 := by
  cases global <;> rfl

/-- `http.ResponseWriter`; there is no status before the header is written. -/
structure ResponseWriter where
  header : List (List UInt8 × List UInt8)
  status : Option Nat
  body : List UInt8
  deriving DecidableEq

namespace ResponseWriter

def empty : ResponseWriter := ⟨[], none, []⟩

def set (name value : List UInt8) (w : ResponseWriter) : ResponseWriter :=
  { w with header := (name, value) :: w.header.filter (·.1 ≠ name) }

def get (w : ResponseWriter) (name : List UInt8) : Option (List UInt8) := w.header.lookup name

/-- Only the first header counts. -/
def writeHeader (status : Nat) (w : ResponseWriter) : ResponseWriter :=
  { w with status := w.status <|> some status }

def write (data : List UInt8) (w : ResponseWriter) : ResponseWriter :=
  let w := w.writeHeader 200
  { w with body := w.body ++ data }

def writeProxyError (message : List UInt8) (status : Nat) (w : ResponseWriter) : ResponseWriter :=
  ((w.set (ascii "Content-Type") (ascii "text/plain; charset=utf-8")).set
    (ascii "X-Nirn-Proxy-Error") (ascii "true")).writeHeader status |>.write (message ++ ascii "\n")

def writeUnavailable (message : List UInt8) (w : ResponseWriter) : ResponseWriter :=
  (w.set (ascii "Retry-After") (ascii "1")).writeProxyError message 503

/-- `http.Error`. -/
def httpError (message : List UInt8) (status : Nat) (w : ResponseWriter) : ResponseWriter :=
  ((w.set (ascii "Content-Type") (ascii "text/plain; charset=utf-8")).set
    (ascii "X-Content-Type-Options") (ascii "nosniff")).writeHeader status |>.write
      (message ++ ascii "\n")

def notFound (w : ResponseWriter) : ResponseWriter := w.httpError (ascii "404 page not found") 404

/-- `ReverseProxy` before it copies the body. -/
def copyHeader (r : HttpResponse) (w : ResponseWriter) : ResponseWriter :=
  { w with header := w.header ++ r.header }.writeHeader r.status

end ResponseWriter

inductive Sentinel
  | canceled
  | deadlineExceeded
  | queueDeadline
  | upstreamDeadline
  | queueFull
  | tooManyClients
  | bucketStateLimit
  | proxyClosed
  | invalidRequestBudget
  | retryCaptureBudget
  | retryPreparation
  deriving DecidableEq

/-- An error: the values that `errors.Is` finds on unwrapping it, and its text. -/
structure GoError where
  chain : List Sentinel
  text : List UInt8
  deriving DecidableEq

namespace GoError

def is (e : GoError) (target : Sentinel) : Bool := decide (target ∈ e.chain)

def errorf (text : List UInt8) : GoError := ⟨[], text⟩

/-- An error that the proxy itself has not made. -/
def foreign (e : GoError) : Bool := e.chain.all fun x => x = .canceled || x = .deadlineExceeded

end GoError

def contextCanceled : GoError := ⟨[.canceled], ascii "context canceled"⟩

def errQueueDeadline : GoError :=
  ⟨[.queueDeadline, .deadlineExceeded],
    ascii "Discord scheduler deadline exceeded: context deadline exceeded"⟩

def errUpstreamDeadline : GoError :=
  ⟨[.upstreamDeadline, .deadlineExceeded],
    ascii "Discord upstream deadline exceeded: context deadline exceeded"⟩

def errQueueFull : GoError := ⟨[.queueFull], ascii "rate-limit queue is full"⟩

def errTooManyClients : GoError := ⟨[.tooManyClients], ascii "client state limit reached"⟩

def errBucketStateLimit : GoError :=
  ⟨[.bucketStateLimit], ascii "rate-limit state capacity exhausted"⟩

def errProxyClosed : GoError := ⟨[.proxyClosed], ascii "proxy is shutting down"⟩

def errInvalidRequestBudget : GoError :=
  ⟨[.invalidRequestBudget], ascii "Discord invalid-request safety budget exhausted"⟩

def errRetryCaptureBudget : GoError :=
  ⟨[.retryCaptureBudget], ascii "retry capture capacity exhausted"⟩

/-- `errRetryPreparation` with the error that it reports. -/
def errRetryPreparation (err : List UInt8) : GoError :=
  ⟨[.retryPreparation], ascii "retry body preparation failed: " ++ err⟩

def errNoResponse : GoError := .errorf (ascii "upstream transport returned no response")

/-- `ReverseProxy` does not pass on a change of protocols. -/
def errSwitch : GoError := .errorf (ascii "backend tried to switch protocol")

/-- The refusals, which are answered with their own text. -/
def refusals : List Sentinel :=
  [.queueFull, .tooManyClients, .bucketStateLimit, .invalidRequestBudget, .retryCaptureBudget,
    .retryPreparation]

/-- The `ErrorHandler` of `discordProxy`; `cancelled` says that `p.ctx` is done. -/
def discordError (cancelled : Bool) (e : GoError) (w : ResponseWriter) : ResponseWriter :=
  if e.is .canceled then
    if cancelled then w.writeUnavailable (ascii "proxy is shutting down") else w
  else if e.is .queueDeadline then w.writeProxyError e.text 408
  else if e.is .upstreamDeadline then w.writeProxyError e.text 504
  else if e.is .deadlineExceeded then w.writeProxyError e.text 408
  else if refusals.any e.is then w.writeUnavailable e.text
  else w.writeProxyError (ascii "Discord upstream unavailable") 502

/-- The `ErrorHandler` of `peerProxy`. -/
def peerError (w : ResponseWriter) : ResponseWriter :=
  w.writeUnavailable (ascii "cluster peer unavailable")

end NirnProxy
