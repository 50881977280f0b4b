import NmosReference.Library.Bisect
import NmosReference.Query.Subscriptions
import NmosReference.Registry.StoreOrder

-- Pages of a collection, and the links from one to the next.
namespace Query

open Registry

def PARAM_SINCE : String := "paging.since"
def PARAM_UNTIL : String := "paging.until"
def PARAM_LIMIT : String := "paging.limit"
def PARAM_ORDER : String := "paging.order"

def PAGING_PARAMS : List String :=
  [PARAM_SINCE, PARAM_UNTIL, PARAM_LIMIT, PARAM_ORDER]

def orderName : Order → String
  | .create => "create"
  | .update => "update"

-- Why a request has no paging parameters: one is malformed, or `int` raised on a text that passed the
-- check for digits.
inductive PagingFailure
  | pagingError (message : String)
  | valueError
  deriving DecidableEq, Repr

-- The paging parameters of one request, parsed and bounds-checked.
structure PagingRequest where
  since : Option TaiCursor
  upTo  : Option TaiCursor
  limit : Nat
  order : Order
  deriving DecidableEq, Repr

-- A rendered page: the records and the window they were taken from.
structure Page where
  resources : List RegisteredResource
  since     : TaiCursor
  upTo      : TaiCursor
  limit     : Nat
  deriving DecidableEq, Repr

-- `int` on a run of digits. An interpreter that limits how many there may be (`sys.set_int_max_str_digits`, where 0 is
-- no limit) raises for more.
def intDigits (digits : List Char) (maxStrDigits : Nat := 0) : Except PagingFailure Nat :=
  if maxStrDigits ≠ 0 ∧ maxStrDigits < digits.length then .error .valueError
  else
    match Text.decimal digits with
    | some n => .ok n
    | none   => .error .valueError

def parseCursor (raw : String) (maxStrDigits : Nat := 0) : Except PagingFailure (Option TaiCursor) :=
  match raw.toList.span (· ≠ ':') with
  | (head, _ :: tail) =>
    if Text.isDigits head && Text.isDigits tail then do
      let seconds ← intDigits head maxStrDigits
      let nanoseconds ← intDigits tail maxStrDigits
      .ok <| some { seconds, nanoseconds }
    else
      .ok none
  | (_, [])           => .ok none

section

variable [Python]

def cursorParam (params : Dict String String) (name : String) (maxStrDigits : Nat := 0) :
    Except PagingFailure (Option TaiCursor) :=
  match params.get? name with
  | none     => .ok none
  | some raw => do
    match ← parseCursor raw maxStrDigits with
    | some cursor => .ok (some cursor)
    | none        => .error <| .pagingError <|
      name ++ " must match '<seconds>:<nanoseconds>', got " ++ Python.repr raw

-- `int` reads one sign, and a larger page than the server will honour is clamped.
def limitParam (params : Dict String String) (defaultLimit maxLimit : Nat) (maxStrDigits : Nat := 0) :
    Except PagingFailure Nat :=
  match params.get? PARAM_LIMIT with
  | none     => .ok defaultLimit
  | some raw =>
    let digits := raw.toList.dropWhile (· = '-')
    if !Text.isDigits digits then
      .error <| .pagingError <| PARAM_LIMIT ++ " must be an integer, got " ++ Python.repr raw
    else if raw.toList = digits then do
      .ok <| min (← intDigits digits maxStrDigits) maxLimit
    else if raw.toList = '-' :: digits then do
      let n ← intDigits digits maxStrDigits
      if 0 < n then
        .error <| .pagingError <| PARAM_LIMIT ++ s!" must not be negative, got -{n}"
      else
        .ok <| min 0 maxLimit
    else
      .error .valueError

def orderParam (params : Dict String String) : Except PagingFailure Order :=
  match params.get? PARAM_ORDER with
  | none     => .ok .update
  | some raw =>
    if raw = orderName .create then .ok .create
    else if raw = orderName .update then .ok .update
    else .error <| .pagingError <|
      PARAM_ORDER ++ " must be one of ['create', 'update'], got " ++ Python.repr raw

def parsePaging (params : Dict String String) (defaultLimit maxLimit : Nat) (maxStrDigits : Nat := 0) :
    Except PagingFailure PagingRequest := do
  let since ← cursorParam params PARAM_SINCE maxStrDigits
  let upTo ← cursorParam params PARAM_UNTIL maxStrDigits
  let limit ← limitParam params defaultLimit maxLimit maxStrDigits
  let order ← orderParam params
  match since, upTo with
  | some lower, some upper =>
    if upper < lower then
      .error <| .pagingError <| PARAM_SINCE ++ " (" ++ lower.text ++ ") must not be later than " ++
        PARAM_UNTIL ++ " (" ++ upper.text ++ ")"
    else
      .ok { since, upTo, limit, order }
  | _, _ => .ok { since, upTo, limit, order }

end

-- Newest cursor in the collection, or 0:0 when it is empty.
def maxCursor (collection : List RegisteredResource) (o : Order) (presorted : Bool) : TaiCursor :=
  if presorted then
    collection.getLast?.elim .min (RegistryStore.cursorOf · o)
  else
    collection.foldl (fun highest r =>
      if highest < RegistryStore.cursorOf r o then RegistryStore.cursorOf r o else highest) .min

def slice {α : Type*} (l : List α) (start stop : Nat) : List α :=
  (l.take stop).drop start

-- The oldest `limit` records above `since`.
def forwardPage (ascending : List RegisteredResource) (since : TaiCursor) (request : PagingRequest) :
    Page :=
  let key := (RegistryStore.cursorOf · request.order)
  let start := bisectRight key ascending since
  let stop := request.upTo.elim ascending.length (bisectRight key ascending)
  let stop := if stop < start then start else stop
  let page := slice ascending start (min stop (start + request.limit))
  let truncated := decide (request.limit < stop - start)
  let reportUntil :=
    match page.getLast? with
    | some last =>
      if truncated then key last
      else request.upTo.getD (key last)
    | none      => request.upTo.getD since
  { resources := page.reverse, since, upTo := reportUntil, limit := request.limit }

-- The newest `limit` records at or below the ceiling.
def backwardPage (ascending : List RegisteredResource) (ceiling : TaiCursor) (request : PagingRequest) :
    Page :=
  let key := (RegistryStore.cursorOf · request.order)
  let windowSize := bisectRight key ascending ceiling
  let page :=
    if request.limit = 0 then []
    else slice ascending (windowSize - request.limit) windowSize
  let reportSince :=
    if request.limit = 0 then ceiling
    else if request.limit < windowSize then
      ascending[windowSize - request.limit - 1]?.elim .min key
    else .min
  { resources := page.reverse, since := reportSince, upTo := ceiling, limit := request.limit }

-- Selects one page from a filtered collection.
def applyPaging (matched collection : List RegisteredResource) (request : PagingRequest)
    (presorted : Bool) : Page :=
  let ascending := if presorted then matched else sortBy (RegistryStore.cursorKey request.order) matched
  match request.since with
  | some since => forwardPage ascending since request
  | none       => backwardPage ascending
    (request.upTo.getD (maxCursor collection request.order presorted)) request

-- The relations of the links of a page.
inductive Rel
  | next | prev | first | last
  deriving DecidableEq, Repr

-- The query of each link, as the pairs that are then percent-encoded.
def pagingLink (page : Page) (filters : List (String × String)) (o : Order) (rel : Rel) :
    List (String × String) :=
  let cursor :=
    match rel with
    | .next  => [(PARAM_SINCE, page.upTo.text)]
    | .prev  => [(PARAM_UNTIL, page.since.text)]
    | .first => [(PARAM_SINCE, TaiCursor.min.text)]
    | .last  => []
  let order := if o = .update then [] else [(PARAM_ORDER, orderName o)]
  filters ++ cursor ++ [(PARAM_LIMIT, toString page.limit)] ++ order

-- The reserved parameters of the query string.

def PARAM_DOWNGRADE : String := "query.downgrade"

-- Optional features that are refused where they are asked for.
def UNSUPPORTED_PARAMS : List (String × String) :=
  [("query.rql", "RQL queries"), ("query.ancestry_id", "ancestry queries"),
    ("query.ancestry_type", "ancestry queries"), ("query.ancestry_generations", "ancestry queries")]

-- Why a collection is not served: an error response, or an exception the handler does not catch.
inductive Refusal
  | response (status : Nat) (message : String)
  | valueError
  deriving DecidableEq, Repr

def checkUnsupported (params : Dict String String) : Except Refusal Unit :=
  match UNSUPPORTED_PARAMS.find? fun p => params.contains p.1 with
  | some (name, feature) => .error <| .response 501 <|
    feature ++ " are not supported by this Query API (" ++ name ++ ")"
  | none                 => .ok ()

def API_VERSION : String := "v1.3"

-- `v<major>.<minor>` in ASCII digits.
def parseVersion (text : String) : Option (Nat × Nat) :=
  match text.toList with
  | 'v' :: digits =>
    match digits.span (· ≠ '.') with
    | (major, _ :: minor) =>
      if major.all Char.isDigit && minor.all Char.isDigit then do
        some (← Text.decimal major, ← Text.decimal minor)
      else
        none
    | (_, [])             => none
  | _             => none

-- Every stored resource has the version served, so all there is to a downgrade is its errors.
def checkDowngrade [Python] (params : Dict String String) : Except Refusal Unit :=
  match params.get? PARAM_DOWNGRADE with
  | none           => .ok ()
  | some requested =>
    match parseVersion requested with
    | none            => .error <| .response 400 <|
      PARAM_DOWNGRADE ++ " must match '^v[0-9]+\\.[0-9]+$', got " ++ Python.repr requested
    | some (major, _) =>
      if some major = (parseVersion API_VERSION).map Prod.fst then .ok ()
      else .error <| .response 400 <|
        "cannot downgrade from " ++ API_VERSION ++ " to " ++ requested ++
          ": downgrade queries must not cross major API versions"

-- Everything that is not reserved is a filter on a resource attribute.
def filterParams (params : Dict String String) : List (String × String) :=
  params.items.filter fun p => p.1 ∉ PAGING_PARAMS ∧ ¬"query.".toList <+: p.1.toList

-- `dict(request.query)`: the first of several values of a parameter.
def queryDict (query : List (String × String)) : Dict String String :=
  query.foldl (fun params p => if params.contains p.1 then params else params.set p.1 p.2) ∅

structure PagingConfig where
  defaultLimit : Nat := 10
  maxLimit     : Nat := 100

-- What a collection is answered with: a page, and where its links lead.
structure CollectionResponse where
  page : Page
  link : Rel → List (String × String)

section

variable [Python] [QueryFilter]

def matched (collection : List RegisteredResource) (filters : List (String × String)) :
    List RegisteredResource :=
  if filters.isEmpty then collection
  else collection.filter fun r => QueryFilter.satisfies r.raw filters

-- The checks of a request that do not depend on the store.
def checkRequest (config : PagingConfig) (params : Dict String String) :
    Except Refusal PagingRequest := do
  checkUnsupported params
  checkDowngrade params
  match parsePaging params config.defaultLimit config.maxLimit with
  | .ok paging                     => .ok paging
  | .error (.pagingError message)  => .error <| .response 400 message
  | .error .valueError             => .error .valueError

-- Lists the extant resources of one type. Reading an order of the store may sort its index.
def getCollection (config : PagingConfig) (s : RegistryStore) (t : ResourceType)
    (params : Dict String String) : Except Refusal CollectionResponse × RegistryStore :=
  match checkRequest config params with
  | .error refusal => (.error refusal, s)
  | .ok paging     =>
    let (collection, s) := s.iterOrdered t paging.order
    let filters := filterParams params
    let page := applyPaging (matched collection filters) collection paging true
    (.ok { page, link := pagingLink page filters paging.order }, s)

end

end Query
