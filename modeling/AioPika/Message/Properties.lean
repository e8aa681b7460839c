import AioPika.Foundation.Binary64
import AioPika.Foundation.Dict
import Mathlib

/-! # The properties of a message

The constructor of a message normalises what it is given, and the properties
that are published encode the expiration in milliseconds. A received message is
constructed from the properties, with the expiration decoded to a floating point
number of seconds; a copy is constructed from a message.
-/

namespace AioPika.Properties

inductive Exc where
  | valueError
  | overflowError
  deriving DecidableEq, Repr

/-- `datetime`, with the microseconds since 1970 in its own time zone. -/
structure DateTime where
  microseconds : ℤ
  /-- `tzinfo`: the offset from UTC in microseconds -/
  utcoffset : Option ℤ
  deriving DecidableEq, Repr

/-- `timedelta` -/
structure TimeDelta where
  microseconds : ℤ
  deriving DecidableEq, Repr

/-- `DateType`, other than `None`. -/
inductive DateType where
  | int (value : ℤ)
  | datetime (value : DateTime)
  | float (value : Binary64)
  | timedelta (value : TimeDelta)
  deriving DecidableEq, Repr

/-- `datetime.now(tz)` at a moment, in microseconds since 1970 in that time zone. -/
structure Clock where
  now : Option ℤ → ℤ

/-- `==` -/
def DateType.Eq : DateType → DateType → Prop
  | .int m, .int n => m = n
  | .int m, .float x => x = .finite m
  | .float x, .int n => x = .finite n
  | .float x, .float y => x = y ∧ x ≠ .nan
  | .timedelta d, .timedelta d' => d = d'
  | .datetime ⟨us, some offset⟩, .datetime ⟨us', some offset'⟩ => us - offset = us' - offset'
  | .datetime ⟨us, none⟩, .datetime ⟨us', none⟩ => us = us'
  | _, _ => False

/-- `MILLISECONDS` -/
def milliseconds : ℤ := 1000

/-- `int(x)` -/
def truncate : Binary64 → Except Exc ℤ
  | .finite q => .ok (if 0 ≤ q then ⌊q⌋ else ⌈q⌉)
  | .infinite _ => .error .overflowError
  | .nan => .error .valueError

/-- `to_milliseconds`, of a `float` -/
def floatToMilliseconds (seconds : Binary64) : Except Exc ℤ :=
  truncate (seconds.mul (Binary64.ofRat milliseconds))

def TimeDelta.totalSeconds (d : TimeDelta) : Binary64 := Binary64.ofRat (d.microseconds / 1000000)

/-- `encode_expiration`. The limit that `str` may have on the digits of an `int` is left out. -/
def encodeExpiration (clock : Clock) : Option DateType → Except Exc (Option String)
  | none => .ok none
  | some (.datetime value) =>
    let d : TimeDelta := ⟨value.microseconds - clock.now value.utcoffset⟩
    (floatToMilliseconds d.totalSeconds).map fun m => some m.repr
  | some (.int value) => .ok (some (value * milliseconds).repr)
  | some (.float value) => (floatToMilliseconds value).map fun m => some m.repr
  | some (.timedelta value) => (floatToMilliseconds value.totalSeconds).map fun m => some m.repr

def digits (cs : List Char) : Option (ℕ × ℕ) :=
  if cs = [] then some (0, 0)
  else (String.ofList cs).toNat?.map fun n => (n, cs.countP Char.isDigit)

def exponent : List Char → Option ℤ
  | [] => some 0
  | 'e' :: '-' :: cs => (String.ofList cs).toNat?.map fun n => -(n : ℤ)
  | 'e' :: '+' :: cs | 'e' :: cs => (String.ofList cs).toNat?.map fun n => (n : ℤ)
  | _ => none

/-- A number without its sign: digits with a point and an exponent. -/
def floatnumber (cs : List Char) : Option ℚ := do
  let (mantissa, rest) := cs.span (· ≠ 'e')
  let e ← exponent rest
  let (whole, fraction) := mantissa.span (· ≠ '.')
  let (m, n) ← digits whole
  let (f, k) ← digits (fraction.drop 1)
  if n + k = 0 then none
  else some ((m * 10 ^ k + f) * 10 ^ (e - k))

/-- `float(t)`, or `ValueError`, of a text in ASCII: the digits and blanks that Unicode has beside
those of ASCII are left out. -/
def float (t : String) : Except Exc Binary64 :=
  match t.toInt? with
  | some m => .ok (Binary64.ofRat m)
  | none =>
    let (negative, cs) : Bool × List Char :=
      match t.trimAscii.toString.toLower.toList with
      | '-' :: cs => (true, cs)
      | '+' :: cs => (false, cs)
      | cs => (false, cs)
    if cs = "inf".toList ∨ cs = "infinity".toList then .ok (.infinite negative)
    else if cs = "nan".toList then .ok .nan
    else match floatnumber cs with
      | some q => .ok (Binary64.ofRat (if negative then -q else q))
      | none => .error .valueError

def decodeExpiration : Option String → Except Exc (Option DateType)
  | none => .ok none
  | some t => (float t).map fun x => some (.float (x.div (Binary64.ofRat milliseconds)))

/-- A `datetime` whose year is from 1 to 9999. -/
def DateTime.make (exc : Exc) (microseconds : ℤ) (utcoffset : Option ℤ) : Except Exc DateTime :=
  if -62135596800000000 ≤ microseconds ∧ microseconds < 253402300800000000 then
    .ok ⟨microseconds, utcoffset⟩
  else .error exc

/-- `datetime.fromtimestamp(value, tz=timezone.utc)`, of an `int`. The `OSError` of a C library that
cannot split the seconds is left out: it counts as the `ValueError` of a year out of range. -/
def fromTimestampInt (value : ℤ) : Except Exc DateTime :=
  if -2 ^ 63 ≤ value ∧ value < 2 ^ 63 then DateTime.make .valueError (value * 1000000) (some 0)
  else .error .overflowError

/-- `datetime.fromtimestamp(value, tz=timezone.utc)`, of a `float`: microseconds are rounded. -/
def fromTimestampFloat (value : Binary64) : Except Exc DateTime :=
  match value with
  | .finite q => do
    let seconds ← truncate value
    let microseconds := Binary64.roundHalfEven (Binary64.round ((q - seconds) * 1000000))
    if -2 ^ 63 ≤ seconds ∧ seconds < 2 ^ 63 then
      DateTime.make .valueError (seconds * 1000000 + microseconds) (some 0)
    else .error .overflowError
  | .infinite _ => .error .overflowError
  | .nan => .error .valueError

def encodeTimestamp (clock : Clock) : Option DateType → Except Exc (Option DateTime)
  | none => .ok none
  | some (.datetime value) => .ok (some value)
  | some (.int value) => (fromTimestampInt value).map some
  | some (.float value) => (fromTimestampFloat value).map some
  | some (.timedelta value) =>
    (DateTime.make .overflowError (clock.now (some 0) + value.microseconds) (some 0)).map some

def decodeTimestamp (value : Option DateTime) : Option DateTime := value

/-- `optional`; `truth` is `bool(value)`. -/
def optional {V T : Type*} (truth : V → Bool) (func : V → T) (default : T) : Option V → T
  | some value => if truth value then func value else default
  | none => default

/-- `optional(value, str)` -/
def optionalStr (value : Option String) : Option String :=
  optional (fun value => decide (value ≠ "")) some none value

inductive DeliveryMode where
  | notPersistent
  | persistent
  deriving DecidableEq, Repr

def DeliveryMode.value : DeliveryMode → ℤ
  | .notPersistent => 1
  | .persistent => 2

/-- `DeliveryMode(value)` -/
def DeliveryMode.ofInt (value : ℤ) : Except Exc DeliveryMode :=
  if value = 1 then .ok .notPersistent
  else if value = 2 then .ok .persistent
  else .error .valueError

/-- The arguments of the constructor; `F` are the values of headers. -/
structure MessageArgs (F : Type) where
  body : List UInt8
  headers : Option (Dict String F)
  contentType : Option String
  contentEncoding : Option String
  deliveryMode : Option ℤ
  priority : Option ℤ
  correlationId : Option String
  replyTo : Option String
  expiration : Option DateType
  messageId : Option String
  timestamp : Option DateType
  type : Option String
  userId : Option String
  appId : Option String

structure Message (F : Type) where
  body : List UInt8
  bodySize : ℕ
  headers : Dict String F
  contentType : Option String
  contentEncoding : Option String
  deliveryMode : DeliveryMode
  priority : ℤ
  correlationId : Option String
  replyTo : Option String
  expiration : Option DateType
  messageId : Option String
  timestamp : Option DateTime
  type : Option String
  userId : Option String
  appId : Option String

/-- `aiormq.spec.Basic.Properties` -/
structure BasicProperties (F : Type) where
  appId : Option String
  contentEncoding : Option String
  contentType : Option String
  correlationId : Option String
  deliveryMode : Option ℤ
  expiration : Option String
  headers : Option (Dict String F)
  messageId : Option String
  messageType : Option String
  priority : Option ℤ
  replyTo : Option String
  timestamp : Option DateTime
  userId : Option String

variable {F : Type}

/-- `headers or {}` -/
def headersOf (headers : Option (Dict String F)) : Dict String F :=
  optional (fun d => !d.items.isEmpty) id Dict.empty headers

/-- `__init__` -/
def Message.new (clock : Clock) (args : MessageArgs F) : Except Exc (Message F) := do
  let deliveryMode ← DeliveryMode.ofInt
    (optional (fun v => decide (v ≠ 0)) id DeliveryMode.notPersistent.value args.deliveryMode)
  let timestamp ← encodeTimestamp clock args.timestamp
  return {
    body := args.body
    bodySize := if args.body.isEmpty then 0 else args.body.length
    headers := headersOf args.headers
    contentType := args.contentType
    contentEncoding := args.contentEncoding
    deliveryMode := deliveryMode
    priority := optional (fun v => decide (v ≠ 0)) id 0 args.priority
    correlationId := optionalStr args.correlationId
    replyTo := optionalStr args.replyTo
    expiration := args.expiration
    messageId := optionalStr args.messageId
    timestamp := timestamp
    type := optionalStr args.type
    userId := optionalStr args.userId
    appId := optionalStr args.appId }

def Message.properties (clock : Clock) (m : Message F) : Except Exc (BasicProperties F) := do
  let expiration ← encodeExpiration clock m.expiration
  return {
    appId := m.appId
    contentEncoding := m.contentEncoding
    contentType := m.contentType
    correlationId := m.correlationId
    deliveryMode := some m.deliveryMode.value
    expiration := expiration
    headers := some m.headers
    messageId := m.messageId
    messageType := m.type
    priority := some m.priority
    replyTo := m.replyTo
    timestamp := m.timestamp
    userId := m.userId }

/-- `__copy__` -/
def Message.copy (clock : Clock) (m : Message F) : Except Exc (Message F) :=
  Message.new clock {
    body := m.body
    headers := some m.headers
    contentEncoding := m.contentEncoding
    contentType := m.contentType
    deliveryMode := some m.deliveryMode.value
    priority := some m.priority
    correlationId := m.correlationId
    replyTo := m.replyTo
    expiration := m.expiration
    messageId := m.messageId
    timestamp := m.timestamp.map .datetime
    type := m.type
    userId := m.userId
    appId := m.appId }

/-- `IncomingMessage.__init__`, of a body and its properties. -/
def incoming (clock : Clock) (body : List UInt8) (p : BasicProperties F) :
    Except Exc (Message F) := do
  let expiration ← decodeExpiration p.expiration
  Message.new clock {
    body := body
    contentType := p.contentType
    contentEncoding := p.contentEncoding
    headers := p.headers
    deliveryMode := p.deliveryMode
    priority := p.priority
    correlationId := p.correlationId
    replyTo := p.replyTo
    expiration := expiration
    messageId := p.messageId
    timestamp := (decodeTimestamp p.timestamp).map .datetime
    type := p.messageType
    userId := p.userId
    appId := p.appId }

/-- Both are `None`, or they are equal. -/
def SameExpiration : Option DateType → Option DateType → Prop
  | none, none => True
  | some a, some b => a.Eq b
  | _, _ => False

/-- A received message has what the published one has. -/
structure Same (m r : Message F) : Prop where
  appId : r.appId = m.appId
  body : r.body = m.body
  bodySize : r.bodySize = m.bodySize
  contentEncoding : r.contentEncoding = m.contentEncoding
  contentType : r.contentType = m.contentType
  correlationId : r.correlationId = m.correlationId
  deliveryMode : r.deliveryMode = m.deliveryMode
  expiration : SameExpiration m.expiration r.expiration
  headers : r.headers = m.headers
  messageId : r.messageId = m.messageId
  priority : r.priority = m.priority
  replyTo : r.replyTo = m.replyTo
  timestamp : r.timestamp = m.timestamp
  type : r.type = m.type
  userId : r.userId = m.userId

section Expiration

variable {n m : ℤ}

theorem ofRat_milliseconds : Binary64.ofRat milliseconds = .finite 1000 := by
  have h : |milliseconds| < 2 ^ 53 := by decide
  rw [Binary64.ofRat_intCast h]
  rfl

theorem float_repr (h : |m| < 2 ^ 53) : float m.repr = .ok (.finite m) := by
  simp [float, Binary64.ofRat_intCast h]

theorem div_milliseconds (h : |n * milliseconds| < 2 ^ 53) :
    (Binary64.finite ((n * milliseconds : ℤ) : ℚ)).div (Binary64.ofRat milliseconds) =
      .finite n := by
  have hn : |n| < 2 ^ 53 := by
    rw [abs_mul] at h
    exact (le_mul_of_one_le_right (abs_nonneg n) (by decide)).trans_lt h
  have hq : ((n * milliseconds : ℤ) : ℚ) / 1000 = n := by
    push_cast [milliseconds]
    ring
  rw [ofRat_milliseconds, Binary64.div, if_pos (by norm_num), hq, Binary64.ofRat_intCast hn]

theorem truncate_intCast : truncate (.finite (m : ℚ)) = .ok m := by
  simp [truncate]

theorem floatToMilliseconds_finite (h : |n * milliseconds| < 2 ^ 53) :
    floatToMilliseconds (.finite n) = .ok (n * milliseconds) := by
  have hq : (n : ℚ) * 1000 = ((n * milliseconds : ℤ) : ℚ) := by
    push_cast [milliseconds]
    ring
  rw [floatToMilliseconds, ofRat_milliseconds, Binary64.mul, hq, Binary64.ofRat_intCast h,
    truncate_intCast]

/-- What becomes of an expiration: it is encoded to `t` at any time, decoded to `e'`, and encoded
to the same again. -/
structure Carried (e : Option DateType) (t : Option String) (e' : Option DateType) : Prop where
  encoded : ∀ clock, encodeExpiration clock e = .ok t
  decoded : decodeExpiration t = .ok e'
  again : ∀ clock, encodeExpiration clock e' = .ok t
  same : SameExpiration e e'

theorem carried_none : Carried none none none :=
  ⟨fun _ => rfl, rfl, fun _ => rfl, trivial⟩

theorem carried_int (h : |n * milliseconds| < 2 ^ 53) :
    Carried (some (.int n)) (some (n * milliseconds).repr) (some (.float (.finite n))) := by
  constructor
  · exact fun _ => rfl
  · simp only [decodeExpiration, float_repr h, Except.map, div_milliseconds h]
  · intro clock
    simp only [encodeExpiration, floatToMilliseconds_finite h, Except.map]
  · rfl

end Expiration

theorem optionalStr_idem (v : Option String) : optionalStr (optionalStr v) = optionalStr v := by
  cases v with
  | none => rfl
  | some s =>
    by_cases h : s = ""
    · simp [optionalStr, optional, h]
    · simp [optionalStr, optional, h]

theorem headersOf_some (d : Dict String F) : headersOf (some d) = d := by
  by_cases h : d.items = []
  · have he : d = Dict.empty := Dict.ext h
    rw [he]
    rfl
  · simp [headersOf, optional, h]

theorem deliveryMode_value (mode : DeliveryMode) : DeliveryMode.ofInt
    (optional (fun v => decide (v ≠ 0)) id DeliveryMode.notPersistent.value (some mode.value)) =
      .ok mode := by
  cases mode <;> rfl

theorem priority_some (v : ℤ) : optional (fun v => decide (v ≠ 0)) id 0 (some v) = v := by
  by_cases h : v = 0
  · simp [optional, h]
  · simp [optional, h]

theorem encodeTimestamp_datetime (clock : Clock) (v : Option DateTime) :
    encodeTimestamp clock (v.map .datetime) = .ok v := by
  cases v <;> rfl

/-- What the constructor makes of a message. -/
structure Constructed (m : Message F) : Prop where
  bodySize : m.bodySize = if m.body.isEmpty then 0 else m.body.length
  correlationId : optionalStr m.correlationId = m.correlationId
  replyTo : optionalStr m.replyTo = m.replyTo
  messageId : optionalStr m.messageId = m.messageId
  type : optionalStr m.type = m.type
  userId : optionalStr m.userId = m.userId
  appId : optionalStr m.appId = m.appId

variable {clock : Clock} {args : MessageArgs F} {m : Message F} {e e' : Option DateType}
  {t : Option String}

theorem constructed_of_new (h : Message.new clock args = .ok m) :
    Constructed m ∧ m.expiration = args.expiration := by
  simp only [Message.new, bind, Except.bind, pure, Except.pure] at h
  split at h
  · cases h
  · split at h
    · cases h
    · obtain rfl := Except.ok.inj h
      exact ⟨⟨rfl, optionalStr_idem _, optionalStr_idem _, optionalStr_idem _, optionalStr_idem _,
        optionalStr_idem _, optionalStr_idem _⟩, rfl⟩

/-- The arguments that a copy passes, with an expiration. -/
def Message.ownArgs (m : Message F) (expiration : Option DateType) : MessageArgs F where
  body := m.body
  headers := some m.headers
  contentEncoding := m.contentEncoding
  contentType := m.contentType
  deliveryMode := some m.deliveryMode.value
  priority := some m.priority
  correlationId := m.correlationId
  replyTo := m.replyTo
  expiration := expiration
  messageId := m.messageId
  timestamp := m.timestamp.map .datetime
  type := m.type
  userId := m.userId
  appId := m.appId

theorem new_ownArgs (h : Constructed m) (clock : Clock) (e : Option DateType) :
    Message.new clock (m.ownArgs e) = .ok { m with expiration := e } := by
  have hmode : DeliveryMode.ofInt (optional (fun v => decide (v ≠ 0)) id
      DeliveryMode.notPersistent.value (m.ownArgs e).deliveryMode) = .ok m.deliveryMode :=
    deliveryMode_value m.deliveryMode
  have htime : encodeTimestamp clock (m.ownArgs e).timestamp = .ok m.timestamp :=
    encodeTimestamp_datetime clock m.timestamp
  simp only [Message.new, hmode, htime, bind, Except.bind, pure, Except.pure]
  simp only [Message.ownArgs, headersOf_some, priority_some, h.correlationId, h.replyTo,
    h.messageId, h.type, h.userId, h.appId]
  rw [h.bodySize]
  rfl

/-- The properties of a message, with its expiration encoded. -/
def Message.encoded (m : Message F) (t : Option String) : BasicProperties F where
  appId := m.appId
  contentEncoding := m.contentEncoding
  contentType := m.contentType
  correlationId := m.correlationId
  deliveryMode := some m.deliveryMode.value
  expiration := t
  headers := some m.headers
  messageId := m.messageId
  messageType := m.type
  priority := some m.priority
  replyTo := m.replyTo
  timestamp := m.timestamp
  userId := m.userId

/-- A message is published with properties from which a message with the same values is constructed,
whose properties, and those of its copies, are the same again. -/
structure Survives (m : Message F) (p : BasicProperties F) : Prop where
  published : ∀ clock, m.properties clock = .ok p
  received : ∀ clock, ∃ r, incoming clock m.body p = .ok r ∧ Same m r ∧
    (∀ clock, r.properties clock = .ok p) ∧
    ∀ clock, ∃ c, r.copy clock = .ok c ∧ ∀ clock, c.properties clock = .ok p

theorem properties_eq (h : encodeExpiration clock m.expiration = .ok t) :
    m.properties clock = .ok (m.encoded t) := by
  simp only [Message.properties, h, bind, Except.bind, pure, Except.pure]
  rfl

theorem incoming_encoded (hm : Constructed m) (hd : decodeExpiration t = .ok e) :
    incoming clock m.body (m.encoded t) = .ok { m with expiration := e } := by
  have hargs : incoming clock m.body (m.encoded t) = Message.new clock (m.ownArgs e) := by
    have ht : decodeExpiration (m.encoded t).expiration = .ok e := hd
    simp only [incoming, ht, bind, Except.bind]
    rfl
  rw [hargs, new_ownArgs hm]

/-- A message whose expiration is carried survives its publication. -/
theorem Constructed.survives (hm : Constructed m) (he : Carried m.expiration t e) :
    Survives m (m.encoded t) := by
  constructor
  · exact fun clock => properties_eq (he.encoded clock)
  · intro clock
    refine ⟨{ m with expiration := e }, incoming_encoded hm he.decoded, ?_, ?_, ?_⟩
    · exact ⟨rfl, rfl, rfl, rfl, rfl, rfl, rfl, he.same, rfl, rfl, rfl, rfl, rfl, rfl, rfl⟩
    · exact fun clock => properties_eq (m := { m with expiration := e }) (he.again clock)
    · intro clock
      exact ⟨{ m with expiration := e }, new_ownArgs hm clock e,
        fun clock => properties_eq (m := { m with expiration := e }) (he.again clock)⟩

/-- Whatever a message is made of, nothing is lost when it is published and received, if it does
not expire or expires after a whole number of seconds. -/
theorem message_survives (hm : Message.new clock args = .ok m)
    (he : args.expiration = none ∨
      ∃ n, args.expiration = some (.int n) ∧ |n * milliseconds| < 2 ^ 53) :
    ∃ p, Survives m p := by
  obtain ⟨hc, hexp⟩ := constructed_of_new hm
  rcases he with he | ⟨n, he, hn⟩
  · have hcarried : Carried m.expiration none none := by
      rw [hexp, he]
      exact carried_none
    exact ⟨_, hc.survives hcarried⟩
  · have hcarried : Carried m.expiration (some (n * milliseconds).repr)
        (some (.float (.finite n))) := by
      rw [hexp, he]
      exact carried_int hn
    exact ⟨_, hc.survives hcarried⟩

/-- A persistent message that expires after a minute, with an empty correlation id. -/
def expiring : MessageArgs ℕ where
  body := [104, 105]
  headers := none
  contentType := some "text/plain"
  contentEncoding := none
  deliveryMode := some 2
  priority := none
  correlationId := some ""
  replyTo := some "callback"
  expiration := some (.int 60)
  messageId := none
  timestamp := some (.int 1700000000)
  type := none
  userId := none
  appId := none

theorem expiring_survives : ∃ m, Message.new ⟨fun _ => 0⟩ expiring = .ok m ∧
    ∃ p, Survives m p := by
  have hnew : ∃ m, Message.new ⟨fun _ => 0⟩ expiring = .ok m := ⟨_, rfl⟩
  obtain ⟨m, hm⟩ := hnew
  exact ⟨m, hm, message_survives hm (Or.inr ⟨60, rfl, by decide⟩)⟩

end AioPika.Properties
