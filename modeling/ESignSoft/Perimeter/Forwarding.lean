import ESignSoft.Lib.PercentEncoding
import ESignSoft.Perimeter.PolicyGuard
import ESignSoft.Relay.ClientAddress

/-!
# The relay of the signing app

A signer's browser talks to the relay only.  The relay lets seven shapes of a request through, counts the
visitor, reads a body of no more than 3 MiB and sends a request of its own to the API: the path is built from
the token, of the headers it takes three over, and the secret and the visitor's address are its own.  Whatever
goes wrong, the answer is the same.

* `readBounded_eq_some` — a body is read whole or not at all, and never more than the limit is held;
* `relay_sends` — what is sent: one request the API has one handler for, with the token and the body as they
  came, under the address the relay has read.
-/

namespace ESignSoft.Perimeter

open ESignSoft.Lib.JsText ESignSoft.Lib.JsNumber ESignSoft.Lib.HttpHeaders ESignSoft.Lib.Utf8
open ESignSoft.Lib.PercentEncoding ESignSoft.Identity ESignSoft.Operations

/-! ## Reading a body -/

/-- What one `read()` of a stream that is not done gives. -/
inductive Read
  | value (bytes : List UInt8)
  | error
  deriving DecidableEq

/-- One turn of the loop; `none` where the reader gives up. -/
def readChunk (limit : Nat) (chunks : List (List UInt8)) : Read → Option (List (List UInt8))
  | .error => none
  | .value bytes => if chunks.flatten.length + bytes.length > limit then none else some (chunks ++ [bytes])

def readBounded (body : Option (List Read)) (limit : Nat) : Option (List UInt8) :=
  match body with
  | none => some []
  | some reads => (reads.foldlM (readChunk limit) []).map List.flatten

/-! ## The relay -/

structure SignRequest where
  method : Method
  /-- `ctx.params.path`. -/
  path : List JsString
  headers : Headers
  body : Option (List Read)
  deriving DecidableEq

structure RelayEnv where
  SIGN_RELAY_SECRET : JsString
  TRUSTED_CLIENT_IP_HEADER : Option JsString

/-- What the relay sends to the API. -/
structure Upstream where
  method : Method
  path : JsString
  headers : Headers
  payload : Option (List UInt8)
  deriving DecidableEq

structure Answer where
  status : Nat
  headers : Headers
  body : List UInt8
  deriving DecidableEq

def MAX_SUBMIT_BYTES : Nat := 3 * 1024 * 1024

def ALLOWED : List (Method × Option JsString) :=
  [(.GET, none), (.GET, some (js "document")), (.GET, some (js "status")), (.GET, some (js "signed")),
    (.GET, some (js "certificate")), (.POST, some (js "consent")), (.POST, some (js "submit"))]

/-- `[A-Za-z0-9_-]`. -/
def isTokenUnit (u : UInt16) : Bool :=
  (0x41 ≤ u && u ≤ 0x5A) || (0x61 ≤ u && u ≤ 0x7A) || isDigit u || u == 0x5F || u == 0x2D

def TOKEN_SHAPE (token : JsString) : Bool := 20 ≤ token.length && token.length ≤ 200 && token.all isTokenUnit

def FORWARDABLE_REQUEST_HEADERS : List JsString := [js "accept", js "content-type"]

def STRIPPED_RESPONSE_HEADERS : List JsString :=
  [js "content-encoding", js "content-length", js "transfer-encoding", js "connection", js "set-cookie"]

/-- The one answer to everything that fails. -/
def notFound : Answer where
  status := 404
  headers := [(js "content-type", js "application/json"), (js "cache-control", js "no-store")]
  body := utf8 (js "\x7b\"message\":\"This signing link is not valid.\"\x7d")

/-- The length a request declares; without the header it is `Number(null)`. -/
def declaredLength (headers : Headers) : Number :=
  match headers.get (js "content-length") with
  | none => .finite 0
  | some value => stringToNumber value

/-- The shape of a request: a token, and what is asked of it. -/
def shapeOf (req : SignRequest) : Option (JsString × Option JsString) :=
  match req.path with
  | [token] => if TOKEN_SHAPE token && ALLOWED.contains (req.method, none) then some (token, none) else none
  | [token, tail] =>
      if TOKEN_SHAPE token && ALLOWED.contains (req.method, some tail) then some (token, some tail) else none
  | _ => none

/-- A token of this shape is its own component of a URI. -/
def upstreamPath (token : JsString) (tail : Option JsString) : Option JsString :=
  (encodeURIComponent token).map fun component =>
    match tail with
    | some tail => js "/sign/" ++ component ++ js "/" ++ tail
    | none => js "/sign/" ++ component

/-- The headers of the relay's own request. -/
def upstreamHeaders (env : RelayEnv) (ip requestId : JsString) (headers : Headers) : Headers :=
  let forwarded := FORWARDABLE_REQUEST_HEADERS.foldl (fun (h : Headers) name =>
    match headers.get name with
    | some value => h.set name value
    | none => h) []
  let own := ((forwarded.set (js "x-internal-auth") env.SIGN_RELAY_SECRET).set (js "x-client-ip") ip).set
    (js "x-request-id") requestId
  match truthy (headers.get (js "user-agent")) with
  | some ua => own.set (js "user-agent") ua
  | none => own

/-- The body the relay sends on; reads have none. -/
def payloadOf (req : SignRequest) : Option (Option (List UInt8)) :=
  if req.method = .GET ∨ req.method = .HEAD then some none
  else (readBounded req.body MAX_SUBMIT_BYTES).map some

/-- The API's answer, on its way back. -/
def pipe (upstream : Answer) : Answer :=
  let resHeaders : Headers := upstream.headers.filter fun entry => !STRIPPED_RESPONSE_HEADERS.contains entry.1
  { upstream with headers := Headers.set resHeaders (js "cache-control") (js "no-store") }

/-- The relay: what its limiter keeps, what it has sent to the API, and its answer.  `fetch` is `none` where
the API cannot be reached. -/
def relay (env : RelayEnv) (requestId : JsString) (now : Int) (fetch : Upstream → Option Answer) (hits : Hits)
    (req : SignRequest) : Hits × Option Upstream × Answer :=
  match shapeOf req with
  | none => (hits, none, notFound)
  | some (token, tail) =>
      let ip := Relay.clientIp env.TRUSTED_CLIENT_IP_HEADER req.headers
      match allowRequest hits ip now with
      | (false, hits) => (hits, none, notFound)
      | (true, hits) =>
          match declaredLength req.headers with
          | .finite declared =>
              if declared > MAX_SUBMIT_BYTES then (hits, none, notFound)
              else send hits token tail ip
          | _ => send hits token tail ip
where
  send (hits : Hits) (token : JsString) (tail : Option JsString) (ip : JsString) :
      Hits × Option Upstream × Answer :=
    match upstreamPath token tail, payloadOf req with
    | some path, some payload =>
        let upstream : Upstream := ⟨req.method, path, upstreamHeaders env ip requestId req.headers, payload⟩
        (hits, some upstream, ((fetch upstream).map pipe).getD notFound)
    | _, _ => (hits, none, notFound)

/-! ## Bodies -/

theorem readChunk_eq_some {limit : Nat} {chunks chunks' : List (List UInt8)} {read : Read} :
    readChunk limit chunks read = some chunks' ↔ ∃ bytes, read = .value bytes ∧ chunks' = chunks ++ [bytes] ∧
      chunks'.flatten.length ≤ limit := by
  cases read with
  | error => simp [readChunk]
  | value bytes =>
      by_cases hover : chunks.flatten.length + bytes.length > limit
      · rw [readChunk, if_pos hover]
        refine ⟨nofun, ?_⟩
        rintro ⟨bytes', heq, rfl, hlimit⟩
        cases heq
        rw [List.flatten_append, List.flatten_singleton, List.length_append] at hlimit
        omega
      · rw [readChunk, if_neg hover]
        constructor
        · rintro ⟨⟩
          refine ⟨bytes, rfl, rfl, ?_⟩
          rw [List.flatten_append, List.flatten_singleton, List.length_append]
          omega
        · rintro ⟨bytes', heq, rfl, -⟩
          cases heq
          rfl

/-- The loop keeps what every read gave, and never more than the limit. -/
theorem foldlM_readChunk {limit : Nat} {reads : List Read} {chunks chunks' : List (List UInt8)}
    (h : chunks.flatten.length ≤ limit) :
    reads.foldlM (readChunk limit) chunks = some chunks' ↔
      ∃ values : List (List UInt8),
        reads = values.map Read.value ∧ chunks' = chunks ++ values ∧ chunks'.flatten.length ≤ limit := by
  induction reads generalizing chunks with
  | nil =>
      constructor
      · rintro ⟨⟩
        exact ⟨[], rfl, by simp, h⟩
      · rintro ⟨values, hvalues, rfl, -⟩
        obtain rfl := List.map_eq_nil_iff.mp hvalues.symm
        simp
  | cons read reads ih =>
      rw [List.foldlM_cons]
      constructor
      · intro hrun
        obtain ⟨next, hread, hrest⟩ := Option.bind_eq_some_iff.mp hrun
        obtain ⟨bytes, rfl, rfl, hnext⟩ := readChunk_eq_some.mp hread
        obtain ⟨values, rfl, rfl, hlimit⟩ := (ih hnext).mp hrest
        exact ⟨bytes :: values, rfl, by simp, hlimit⟩
      · rintro ⟨values, hvalues, rfl, hlimit⟩
        cases values with
        | nil => cases hvalues
        | cons bytes values =>
            obtain ⟨rfl, rfl⟩ := List.cons.inj hvalues
            have hshort : (chunks ++ [bytes]).flatten.length ≤ limit := by
              simp only [List.flatten_append, List.flatten_cons, List.length_append] at hlimit ⊢
              simp only [List.flatten_nil, List.length_nil]
              omega
            have hread : readChunk limit chunks (.value bytes) = some (chunks ++ [bytes]) :=
              readChunk_eq_some.mpr ⟨bytes, rfl, rfl, hshort⟩
            refine Option.bind_eq_some_iff.mpr ⟨_, hread, (ih hshort).mpr ⟨values, rfl, by simp, hlimit⟩⟩

/-- What a stream that does not fail gives in all. -/
def Sent (body : Option (List Read)) (bytes : List UInt8) : Prop :=
  match body with
  | none => bytes = []
  | some reads => ∃ values : List (List UInt8), reads = values.map Read.value ∧ bytes = values.flatten

/-- **A body is read whole or not at all**, and only up to the limit. -/
theorem readBounded_eq_some {body : Option (List Read)} {limit : Nat} {bytes : List UInt8} :
    readBounded body limit = some bytes ↔ Sent body bytes ∧ bytes.length ≤ limit := by
  cases body with
  | none =>
      simp only [readBounded, Sent, Option.some.injEq]
      constructor
      · rintro rfl
        exact ⟨rfl, Nat.zero_le _⟩
      · exact fun h => h.1.symm
  | some reads =>
      simp only [readBounded, Sent, Option.map_eq_some_iff]
      constructor
      · rintro ⟨chunks, hrun, rfl⟩
        obtain ⟨values, hreads, rfl, hlimit⟩ := (foldlM_readChunk (by simp)).mp hrun
        exact ⟨⟨_, hreads, rfl⟩, hlimit⟩
      · rintro ⟨⟨values, hreads, rfl⟩, hlimit⟩
        exact ⟨values, (foldlM_readChunk (by simp)).mpr ⟨values, hreads, by simp, hlimit⟩, rfl⟩

/-! ## Paths -/

theorem not_mem_of_mem_splitOn {a : UInt16} {s part : JsString} (h : part ∈ s.splitOn a) : a ∉ part := by
  induction s generalizing part with
  | nil =>
      obtain rfl : part = [] := by simpa using h
      exact List.not_mem_nil
  | cons u s ih =>
      rw [List.splitOn_cons_eq_if_modifyHead] at h
      split at h
      · rcases List.mem_cons.mp h with rfl | h
        · exact List.not_mem_nil
        · exact ih h
      · rename_i hne
        cases hsplit : s.splitOn a with
        | nil => exact absurd hsplit (List.splitOn_ne_nil a s)
        | cons first rest =>
            rw [hsplit, List.modifyHead_cons] at h
            rw [hsplit] at ih
            rcases List.mem_cons.mp h with rfl | h
            · have hua : a ≠ u := by
                rintro rfl
                simp at hne
              rw [List.mem_cons, not_or]
              exact ⟨hua, ih (by simp)⟩
            · exact ih (List.mem_cons_of_mem _ h)

theorem lt_of_isTokenUnit {u : UInt16} (h : isTokenUnit u = true) : u.toNat < 128 := by
  simp only [isTokenUnit, isDigit, Bool.or_eq_true, Bool.and_eq_true, decide_eq_true_eq, beq_iff_eq,
    UInt16.le_iff_toNat_le] at h
  have h5A : (0x5A : UInt16).toNat = 0x5A := rfl
  have h7A : (0x7A : UInt16).toNat = 0x7A := rfl
  have h39 : (0x39 : UInt16).toNat = 0x39 := rfl
  rcases h with (((⟨-, h⟩ | ⟨-, h⟩) | ⟨-, h⟩) | rfl) | rfl
  · omega
  · omega
  · omega
  · decide
  · decide

/-- What may stand in a token stands for itself in a path. -/
theorem unreserved_of_isTokenUnit {u : UInt16} (h : isTokenUnit u = true) :
    u.toUInt8.toUInt16 = u ∧ unreserved u.toUInt8 = true := by
  have hlt := lt_of_isTokenUnit h
  have hall : (List.range 128).all (fun n => !isTokenUnit (UInt16.ofNat n) || unreserved (UInt8.ofNat n)) = true := by
    decide +kernel
  have hu := List.all_eq_true.mp hall u.toNat (List.mem_range.mpr hlt)
  rw [UInt16.ofNat_toNat, h, Bool.not_true, Bool.false_or] at hu
  refine ⟨?_, ?_⟩
  · rw [← UInt16.toNat_inj]
    simp only [UInt8.toNat_toUInt16, UInt16.toNat_toUInt8]
    omega
  · exact hu

/-- Text of such units is its own component of a path, and is read back from one. -/
theorem component_of_token {s : JsString} (h : s.all isTokenUnit = true) :
    encodeURIComponent s = some s ∧ decodeURIComponent s = some s ∧ 0x2F ∉ s := by
  have hmem := List.all_eq_true.mp h
  have htext : asciiText (s.map UInt16.toUInt8) = s := by
    unfold asciiText
    rw [List.map_map]
    calc s.map (UInt8.toUInt16 ∘ UInt16.toUInt8) = s.map id :=
          List.map_congr_left fun u hu => (unreserved_of_isTokenUnit (hmem u hu)).1
      _ = s := List.map_id s
  have hencode : encodeURIComponent s = some s := by
    have hbytes : ∀ b ∈ s.map UInt16.toUInt8, unreserved b = true := by
      intro b hb
      obtain ⟨u, hu, rfl⟩ := List.mem_map.mp hb
      exact (unreserved_of_isTokenUnit (hmem u hu)).2
    have hself := encodeURIComponent_of_unreserved hbytes
    rwa [htext] at hself
  refine ⟨hencode, decodeURIComponent_encodeURIComponent hencode, fun hslash => ?_⟩
  exact absurd (hmem _ hslash) (by decide)

/-- A request as the API receives it from the relay, over a connection from the address given. -/
def received (socket : Option JsString) (u : Upstream) : Option ApiRequest :=
  (((u.path.splitOn 0x2F).drop 1).mapM decodeURIComponent).map fun path =>
    { method := u.method, path := path, ip := socket, remoteAddress := socket, headers := u.headers }

theorem allowed_tail {method : Method} {tail : JsString} (h : (method, some tail) ∈ ALLOWED) :
    tail.all isTokenUnit = true := by
  have hall : ALLOWED.all (fun a => (a.2.getD []).all isTokenUnit) = true := by decide +kernel
  exact List.all_eq_true.mp hall _ h

/-- The path that is built is taken apart into what it was built from. -/
theorem segments_upstreamPath {token path : JsString} {tail : Option JsString} (htoken : token.all isTokenUnit = true)
    (htail : ∀ t, tail = some t → t.all isTokenUnit = true) (h : upstreamPath token tail = some path) :
    ((path.splitOn 0x2F).drop 1).mapM decodeURIComponent = some (js "sign" :: token :: tail.toList) := by
  obtain ⟨hencode, hdecode, hslash⟩ := component_of_token htoken
  obtain ⟨-, hsign, hsignSlash⟩ := component_of_token (show (js "sign").all isTokenUnit = true by decide)
  unfold upstreamPath at h
  rw [hencode, Option.map_some, Option.some_inj] at h
  have hparts : path = [0x2F].intercalate ([] :: js "sign" :: token :: tail.toList) := by
    have hsep : js "/sign/" = 0x2F :: (js "sign" ++ [0x2F]) := rfl
    rw [← h]
    cases tail with
    | none =>
        show js "/sign/" ++ token = _
        simp [List.intercalate, List.intersperse, hsep]
    | some t =>
        show js "/sign/" ++ token ++ js "/" ++ t = _
        simp [List.intercalate, List.intersperse, hsep, show js "/" = [0x2F] from rfl]
  have hsplit : path.splitOn 0x2F = [] :: js "sign" :: token :: tail.toList := by
    rw [hparts]
    refine List.splitOn_intercalate 0x2F ?_ (by simp)
    intro part hpart
    simp only [List.mem_cons, Option.mem_toList] at hpart
    rcases hpart with rfl | rfl | rfl | hpart
    · exact List.not_mem_nil
    · exact hsignSlash
    · exact hslash
    · exact (component_of_token (htail _ hpart)).2.2
  rw [hsplit, List.drop_succ_cons, List.drop_zero, List.mapM_cons, hsign, List.mapM_cons, hdecode]
  cases tail with
  | none => rfl
  | some t =>
      rw [Option.toList_some, List.mapM_cons, (component_of_token (htail t rfl)).2.1]
      rfl

/-- The handlers of the signing surface. -/
def signHandlers : List Handler :=
  [.signView, .signDocument, .signStatus, .signSigned, .signCertificate, .signConsent, .signSubmit]

/-- Only they are under `sign`. -/
theorem mem_signHandlers {h : Handler} {method : Method} {rest : List JsString}
    (hmatches : h.route.matches method (js "sign" :: rest) = true) : h ∈ signHandlers := by
  have hbase : h ∈ signHandlers ∨ ∃ base, h.route.path.head? = some (.word base) ∧
      Segment.matches (.word base) (js "sign") = false := by
    cases h <;> first | exact Or.inl (by decide) | exact Or.inr ⟨_, rfl, by decide⟩
  rcases hbase with hsign | ⟨base, hhead, hbase⟩
  · exact hsign
  · obtain ⟨patterns, hpath⟩ : ∃ patterns, h.route.path = .word base :: patterns := by
      cases hpath : h.route.path with
      | nil => simp [hpath] at hhead
      | cons pattern patterns =>
          rw [hpath, List.head?_cons, Option.some_inj] at hhead
          exact ⟨patterns, by rw [hhead]⟩
    rw [Route.matches, hpath, matchesPath, hbase] at hmatches
    simp at hmatches

/-- The shape a handler of the surface is asked in. -/
def askedAs (h : Handler) : Method × Option JsString :=
  match h with
  | .signDocument => (.GET, some (js "document"))
  | .signStatus => (.GET, some (js "status"))
  | .signSigned => (.GET, some (js "signed"))
  | .signCertificate => (.GET, some (js "certificate"))
  | .signConsent => (.POST, some (js "consent"))
  | .signSubmit => (.POST, some (js "submit"))
  | _ => (.GET, none)

/-- A request of that shape is one for this handler, and for no other of the surface. -/
theorem matches_sign {h : Handler} (hh : h ∈ signHandlers) {shape : Method × Option JsString}
    (hshape : shape ∈ ALLOWED) {token : JsString} (htoken : token ≠ []) :
    h.route.matches shape.1 (js "sign" :: token :: shape.2.toList) = true ↔ askedAs h = shape := by
  have hpath : h.route.path = .word (js "sign") :: .param :: h.route.path.drop 2 := by
    simp only [signHandlers, List.mem_cons, List.not_mem_nil, or_false] at hh
    rcases hh with rfl | rfl | rfl | rfl | rfl | rfl | rfl <;> rfl
  have hparam : Segment.matches .param token = true := by simpa [Segment.matches] using htoken
  have hsign : Segment.matches (.word (js "sign")) (js "sign") = true := by decide
  have hrest : h.route.matches shape.1 (js "sign" :: token :: shape.2.toList) =
      (h.route.method.answers shape.1 && matchesPath (h.route.path.drop 2) shape.2.toList) := by
    rw [Route.matches, hpath, matchesPath, matchesPath, hsign, hparam, Bool.true_and, Bool.true_and,
      List.drop_succ_cons, List.drop_succ_cons, List.drop_zero]
  have hall : signHandlers.all (fun h => ALLOWED.all fun a =>
      (h.route.method.answers a.1 && matchesPath (h.route.path.drop 2) a.2.toList) == decide (askedAs h = a)) =
      true := by decide +kernel
  have hpair := List.all_eq_true.mp (List.all_eq_true.mp hall h hh) shape hshape
  rw [hrest, beq_iff_eq.mp hpair, decide_eq_true_eq]

/-- Every shape the relay lets through is one for exactly one handler. -/
theorem dispatch_sign {shape : Method × Option JsString} (hshape : shape ∈ ALLOWED) {token : JsString}
    (htoken : token ≠ []) : ∃ h ∈ signHandlers, askedAs h = shape ∧
      dispatch shape.1 (js "sign" :: token :: shape.2.toList) = some h := by
  obtain ⟨h, hh, hasked⟩ : ∃ h ∈ signHandlers, askedAs h = shape := by
    have hall : ALLOWED.all (fun a => signHandlers.any fun h => askedAs h == a) = true := by decide +kernel
    simpa using List.all_eq_true.mp hall shape hshape
  have hmatches := (matches_sign hh hshape htoken).mpr hasked
  cases hfound : dispatch shape.1 (js "sign" :: token :: shape.2.toList) with
  | none => exact absurd hmatches (by simpa using List.find?_eq_none.mp hfound h (mem_handlers h))
  | some h' =>
      have hfirst := List.find?_some hfound
      have hh' := mem_signHandlers hfirst
      exact ⟨h', hh', (matches_sign hh' hshape htoken).mp hfirst, rfl⟩

/-! ## Headers -/

/-- What is read of headers taken over by name. -/
theorem get_takenOver (headers : Headers) (names : List JsString) (h : Headers) (name : JsString) :
    Headers.get (names.foldl (fun (h : Headers) name =>
      match headers.get name with
      | some value => h.set name value
      | none => h) h) name =
      if name ∈ names then (headers.get name).or (h.get name) else h.get name := by
  induction names generalizing h with
  | nil => rfl
  | cons first names ih =>
      rw [List.foldl_cons, ih]
      cases hfirst : headers.get first with
      | none =>
          by_cases hname : name = first
          · subst hname
            simp [hfirst]
          · simp [hname]
      | some value =>
          by_cases hname : name = first
          · subst hname
            simp [hfirst]
          · simp [hname, get_set_of_ne _ _ hname]

/-- The names of the headers the relay sends. -/
def ownHeaders : List JsString := [js "x-internal-auth", js "x-client-ip", js "x-request-id", js "user-agent"]

/-- **What the API reads of the relay's headers**: the secret, the address and the request's id the relay puts
there, the browser's own name, and of everything else the browser sent only what it accepts and the type of the
body. -/
theorem get_upstreamHeaders (env : RelayEnv) (ip requestId : JsString) (headers : Headers) :
    let sent := upstreamHeaders env ip requestId headers
    (sent.get (js "x-internal-auth") = some env.SIGN_RELAY_SECRET ∧ sent.get (js "x-client-ip") = some ip ∧
        sent.get (js "x-request-id") = some requestId) ∧
      sent.get (js "user-agent") = truthy (headers.get (js "user-agent")) ∧
      ∀ name, name ∉ ownHeaders →
        sent.get name = if name ∈ FORWARDABLE_REQUEST_HEADERS then headers.get name else none := by
  have hnil : ∀ name, Headers.get ([] : Headers) name = none := fun _ => rfl
  have hne : js "x-internal-auth" ≠ js "x-client-ip" ∧ js "x-internal-auth" ≠ js "x-request-id" ∧
      js "x-client-ip" ≠ js "x-request-id" ∧ js "x-internal-auth" ≠ js "user-agent" ∧
      js "x-client-ip" ≠ js "user-agent" ∧ js "x-request-id" ≠ js "user-agent" ∧
      js "user-agent" ≠ js "x-internal-auth" ∧
      js "user-agent" ≠ js "x-client-ip" ∧ js "user-agent" ≠ js "x-request-id" ∧
      js "user-agent" ∉ FORWARDABLE_REQUEST_HEADERS := by decide
  obtain ⟨hauthIp, hauthId, hipId, hauthUa, hipUa, hidUa, huaAuth, huaIp, huaId, hua⟩ := hne
  unfold upstreamHeaders
  dsimp only
  cases htruthy : truthy (headers.get (js "user-agent")) with
  | none =>
      refine ⟨⟨?_, ?_, get_set_self _ _ _⟩, ?_, fun name hname => ?_⟩
      · rw [get_set_of_ne _ _ hauthId, get_set_of_ne _ _ hauthIp, get_set_self]
      · rw [get_set_of_ne _ _ hipId, get_set_self]
      · rw [get_set_of_ne _ _ huaId, get_set_of_ne _ _ huaIp, get_set_of_ne _ _ huaAuth, get_takenOver, if_neg hua,
          hnil]
      · simp only [ownHeaders, List.mem_cons, List.not_mem_nil, or_false, not_or] at hname
        obtain ⟨hauth, hip, hid, -⟩ := hname
        rw [get_set_of_ne _ _ hid, get_set_of_ne _ _ hip, get_set_of_ne _ _ hauth, get_takenOver, hnil, Option.or_none]
  | some ua =>
      refine ⟨⟨?_, ?_, ?_⟩, get_set_self _ _ _, fun name hname => ?_⟩
      · rw [get_set_of_ne _ _ hauthUa, get_set_of_ne _ _ hauthId, get_set_of_ne _ _ hauthIp, get_set_self]
      · rw [get_set_of_ne _ _ hipUa, get_set_of_ne _ _ hipId, get_set_self]
      · rw [get_set_of_ne _ _ hidUa, get_set_self]
      · simp only [ownHeaders, List.mem_cons, List.not_mem_nil, or_false, not_or] at hname
        obtain ⟨hauth, hip, hid, hname⟩ := hname
        rw [get_set_of_ne _ _ hname, get_set_of_ne _ _ hid, get_set_of_ne _ _ hip, get_set_of_ne _ _ hauth,
          get_takenOver, hnil, Option.or_none]

/-! ## Addresses -/

/-- An address as the API takes it from the relay: trimmed, short and single. -/
structure CleanAddress (s : JsString) : Prop where
  nonempty : s ≠ []
  short : s.length ≤ 45
  trimmed : trim s = s
  single : 0x2C ∉ s

theorem mem_of_mem_trim {u : UInt16} {s : JsString} (h : u ∈ trim s) : u ∈ s := by
  unfold trim at h
  have hdrop := List.mem_reverse.mp ((List.dropWhile_sublist isWhiteSpace).mem (List.mem_reverse.mp h))
  exact (List.dropWhile_sublist isWhiteSpace).mem hdrop

theorem clean_unknown : CleanAddress (js "unknown") := ⟨by decide, by decide, by decide, by decide⟩

/-- A trimmed entry without a comma, where it is short; an honest blank otherwise. -/
theorem clean_orUnknown {part : JsString} (hpart : 0x2C ∉ part) :
    CleanAddress (Relay.orUnknown (Relay.bounded (trim part))) := by
  unfold Relay.orUnknown Relay.bounded
  by_cases hlong : (trim part).length > 45
  · rw [if_pos hlong, if_pos rfl]
    exact clean_unknown
  · rw [if_neg hlong]
    by_cases hempty : trim part = []
    · rw [if_pos hempty]
      exact clean_unknown
    · rw [if_neg hempty]
      exact ⟨hempty, not_lt.mp hlong, trim_trim part, fun hmem => hpart (mem_of_mem_trim hmem)⟩

theorem clean_firstAddress (value : JsString) : CleanAddress (Relay.firstAddress value) := by
  refine clean_orUnknown ?_
  cases hsplit : value.splitOn 0x2C with
  | nil => exact absurd hsplit (List.splitOn_ne_nil _ _)
  | cons first rest => exact not_mem_of_mem_splitOn (s := value) (by rw [hsplit]; simp)

/-- **The address the relay records is one the API takes as it is**, whatever the headers are. -/
theorem clean_clientIp (env : Option JsString) (headers : Headers) : CleanAddress (Relay.clientIp env headers) := by
  unfold Relay.clientIp
  split
  · exact clean_firstAddress _
  · split
    · exact clean_firstAddress _
    · split
      · rename_i nearest hnearest
        obtain ⟨chain, -, hhop⟩ := Option.bind_eq_some_iff.mp hnearest
        obtain ⟨hmem, -⟩ := List.mem_filter.mp (List.mem_of_getLast? hhop)
        obtain ⟨part, hpart, rfl⟩ := List.mem_map.mp hmem
        rw [← trim_trim part]
        exact clean_orUnknown fun hcomma => not_mem_of_mem_splitOn hpart (mem_of_mem_trim hcomma)
      · exact clean_unknown

theorem trustedClientIp_of_clean {req : ApiRequest} {ip : JsString} (hclean : CleanAddress ip)
    (hget : req.headers.get (js "x-client-ip") = some ip) : trustedClientIp req true = some ip := by
  obtain ⟨hnonempty, hshort, htrimmed, hsingle⟩ := hclean
  have hok : ¬ (trim ip = [] ∨ (trim ip).length > 64 ∨ 0x2C ∈ trim ip) := by
    rw [htrimmed]
    rintro (h | h | h)
    · exact hnonempty h
    · omega
    · exact hsingle h
  unfold trustedClientIp
  rw [hget]
  simp only [Bool.not_true, Bool.false_eq_true, if_false]
  rw [if_neg hok, htrimmed]

/-! ## What is sent -/

/-- When the relay sends a request on: its shape is allowed, the visitor has room, and neither the length it
declares nor the body itself is over the limit. -/
structure Sendable (env : RelayEnv) (hits : Hits) (now : Int) (req : SignRequest) : Prop where
  shape : ∃ token tail, req.path = token :: tail.toList ∧ TOKEN_SHAPE token = true ∧ (req.method, tail) ∈ ALLOWED
  room : (allowRequest hits (Relay.clientIp env.TRUSTED_CLIENT_IP_HEADER req.headers) now).1 = true
  declared : ∀ length, declaredLength req.headers = .finite length → length ≤ MAX_SUBMIT_BYTES
  body : req.method = .POST → ∃ bytes, Sent req.body bytes ∧ bytes.length ≤ MAX_SUBMIT_BYTES

/-- What the API is sent for a request: one request of its own for a handler of the signing surface, with the
token, the tail and the body as they came, that the guard counts under the address the relay has read.  Every
header of it is the relay's own or one of the three that are taken over. -/
structure Delivered (env : RelayEnv) (requestId : JsString) (req : SignRequest) (u : Upstream) : Prop where
  handled : ∀ socket, ∃ apiReq, ∃ handler ∈ signHandlers, received socket u = some apiReq ∧
    askedAs handler = (req.method, req.path[1]?) ∧ apiReq.path = js "sign" :: req.path ∧
    dispatch apiReq.method apiReq.path = some handler ∧
    trustedClientIp apiReq true = some (Relay.clientIp env.TRUSTED_CLIENT_IP_HEADER req.headers) ∧
    ∀ verifySecret s, env.SIGN_RELAY_SECRET ≠ [] →
      canActivate ⟨env.SIGN_RELAY_SECRET, verifySecret⟩ apiReq s = askSource .sign apiReq handler s
  read : req.method = .GET → u.payload = none
  written : req.method = .POST → ∃ bytes, u.payload = some bytes ∧ Sent req.body bytes ∧
    bytes.length ≤ MAX_SUBMIT_BYTES
  own : u.headers.get (js "x-internal-auth") = some env.SIGN_RELAY_SECRET ∧
    u.headers.get (js "x-client-ip") = some (Relay.clientIp env.TRUSTED_CLIENT_IP_HEADER req.headers) ∧
    u.headers.get (js "x-request-id") = some requestId
  agent : u.headers.get (js "user-agent") = truthy (req.headers.get (js "user-agent"))
  rest : ∀ name, name ∉ ownHeaders →
    u.headers.get name = if name ∈ FORWARDABLE_REQUEST_HEADERS then req.headers.get name else none

theorem shapeOf_eq_some {req : SignRequest} {token : JsString} {tail : Option JsString} :
    shapeOf req = some (token, tail) ↔
      req.path = token :: tail.toList ∧ TOKEN_SHAPE token = true ∧ (req.method, tail) ∈ ALLOWED := by
  unfold shapeOf
  split
  · rename_i token' hpath
    rw [hpath]
    constructor
    · intro h
      split at h
      · rename_i hok
        cases h
        rw [Bool.and_eq_true, List.contains_iff_mem] at hok
        exact ⟨rfl, hok⟩
      · cases h
    · rintro ⟨heq, hshape, hallowed⟩
      cases tail with
      | none =>
          obtain ⟨rfl, -⟩ := List.cons.inj heq
          rw [if_pos (by rw [Bool.and_eq_true, List.contains_iff_mem]; exact ⟨hshape, hallowed⟩)]
      | some t => cases (List.cons.inj heq).2
  · rename_i token' tail' hpath
    rw [hpath]
    constructor
    · intro h
      split at h
      · rename_i hok
        cases h
        rw [Bool.and_eq_true, List.contains_iff_mem] at hok
        exact ⟨rfl, hok⟩
      · cases h
    · rintro ⟨heq, hshape, hallowed⟩
      cases tail with
      | none => cases (List.cons.inj heq).2
      | some t =>
          obtain ⟨rfl, hrest⟩ := List.cons.inj heq
          obtain ⟨rfl, -⟩ := List.cons.inj hrest
          rw [if_pos (by rw [Bool.and_eq_true, List.contains_iff_mem]; exact ⟨hshape, hallowed⟩)]
  · rename_i hone htwo
    refine ⟨nofun, ?_⟩
    rintro ⟨hpath, -, -⟩
    cases tail with
    | none => exact absurd hpath (hone token)
    | some t => exact absurd hpath (htwo token t)

theorem allowed_method {method : Method} {tail : Option JsString} (h : (method, tail) ∈ ALLOWED) :
    method = .GET ∨ method = .POST := by
  have hall : ALLOWED.all (fun a => a.1 == .GET || a.1 == .POST) = true := by decide
  simpa using List.all_eq_true.mp hall _ h

theorem payloadOf_eq_some {req : SignRequest} {payload : Option (List UInt8)}
    (hmethod : req.method = .GET ∨ req.method = .POST) : payloadOf req = some payload ↔
      (req.method = .GET → payload = none) ∧
        (req.method = .POST → ∃ bytes, payload = some bytes ∧ Sent req.body bytes ∧
          bytes.length ≤ MAX_SUBMIT_BYTES) := by
  unfold payloadOf
  rcases hmethod with hget | hpost
  · rw [hget, if_pos (Or.inl rfl), Option.some_inj]
    exact ⟨fun h => ⟨fun _ => h.symm, nofun⟩, fun h => (h.1 rfl).symm⟩
  · rw [hpost, if_neg (by simp), Option.map_eq_some_iff]
    constructor
    · rintro ⟨bytes, hread, rfl⟩
      exact ⟨nofun, fun _ => ⟨bytes, rfl, readBounded_eq_some.mp hread⟩⟩
    · rintro ⟨-, h⟩
      obtain ⟨bytes, rfl, hbytes⟩ := h rfl
      exact ⟨bytes, readBounded_eq_some.mpr hbytes, rfl⟩

theorem tokenShape_spec {token : JsString} (h : TOKEN_SHAPE token = true) :
    token ≠ [] ∧ token.all isTokenUnit = true := by
  simp only [TOKEN_SHAPE, Bool.and_eq_true, decide_eq_true_eq] at h
  obtain ⟨⟨hlong, -⟩, hall⟩ := h
  refine ⟨?_, hall⟩
  rintro rfl
  simp at hlong

/-- What is built for a request of an allowed shape is delivered. -/
theorem delivered {env : RelayEnv} {requestId : JsString} {req : SignRequest} {token path : JsString}
    {tail : Option JsString} {payload : Option (List UInt8)} (hreqPath : req.path = token :: tail.toList)
    (hshape : TOKEN_SHAPE token = true) (hallowed : (req.method, tail) ∈ ALLOWED)
    (hpath : upstreamPath token tail = some path) (hpayload : payloadOf req = some payload) :
    Delivered env requestId req ⟨req.method, path, upstreamHeaders env
      (Relay.clientIp env.TRUSTED_CLIENT_IP_HEADER req.headers) requestId req.headers, payload⟩ := by
  obtain ⟨⟨hauth, hip, hid⟩, hagent, hrest⟩ := get_upstreamHeaders env
    (Relay.clientIp env.TRUSTED_CLIENT_IP_HEADER req.headers) requestId req.headers
  obtain ⟨hread, hwritten⟩ := (payloadOf_eq_some (allowed_method hallowed)).mp hpayload
  refine ⟨fun socket => ?_, hread, hwritten, ⟨hauth, hip, hid⟩, hagent, hrest⟩
  obtain ⟨hnonempty, hunits⟩ := tokenShape_spec hshape
  have htail : ∀ t, tail = some t → t.all isTokenUnit = true := by
    rintro t rfl
    exact allowed_tail hallowed
  have hsegments := segments_upstreamPath hunits htail hpath
  obtain ⟨handler, hhandler, hasked, hdispatch⟩ := dispatch_sign hallowed hnonempty
  have hsecond : req.path[1]? = tail := by
    rw [hreqPath]
    cases tail <;> rfl
  let apiReq : ApiRequest := ⟨req.method, js "sign" :: token :: tail.toList, socket, socket,
    upstreamHeaders env (Relay.clientIp env.TRUSTED_CLIENT_IP_HEADER req.headers) requestId req.headers⟩
  refine ⟨apiReq, handler, hhandler, ?_, ?_, ?_, hdispatch, ?_, fun verifySecret s hsecret => ?_⟩
  · rw [received, hsegments]
    rfl
  · rw [hasked, hsecond]
  · rw [hreqPath]
  · exact trustedClientIp_of_clean (clean_clientIp _ _) hip
  · have hpolicy : handler.route.policy = some .signRelay := by
      simp only [signHandlers, List.mem_cons, List.not_mem_nil, or_false] at hhandler
      rcases hhandler with rfl | rfl | rfl | rfl | rfl | rfl | rfl <;> rfl
    have hok : relaySecretOk ⟨env.SIGN_RELAY_SECRET, verifySecret⟩ (some env.SIGN_RELAY_SECRET) = true := by
      simp [relaySecretOk, secretOk, truthy, Option.filter_some, hsecret]
    unfold canActivate
    simp only [apiReq, hdispatch, hpolicy, hauth, hok, if_true]

theorem upstreamPath_isSome {token : JsString} (h : token.all isTokenUnit = true) (tail : Option JsString) :
    ∃ path, upstreamPath token tail = some path := by
  rw [upstreamPath, (component_of_token h).1]
  exact ⟨_, rfl⟩

/-- Past the checks a request is sent exactly when its body is within the limit. -/
theorem send_cases {env : RelayEnv} {requestId : JsString} {fetch : Upstream → Option Answer} {req : SignRequest}
    {token : JsString} {tail : Option JsString} (hreqPath : req.path = token :: tail.toList)
    (hshape : TOKEN_SHAPE token = true) (hallowed : (req.method, tail) ∈ ALLOWED) (hits : Hits) :
    let r := relay.send env requestId fetch req hits token tail
      (Relay.clientIp env.TRUSTED_CLIENT_IP_HEADER req.headers)
    (r.2.1 = none ∧ r.2.2 = notFound ∧ payloadOf req = none) ∨
      ∃ u, r.2.1 = some u ∧ r.2.2 = ((fetch u).map pipe).getD notFound ∧ (payloadOf req).isSome ∧
        Delivered env requestId req u := by
  obtain ⟨path, hpath⟩ := upstreamPath_isSome (tokenShape_spec hshape).2 tail
  unfold relay.send
  rw [hpath]
  cases hpayload : payloadOf req with
  | none => exact Or.inl ⟨rfl, rfl, rfl⟩
  | some payload =>
      have hdelivered : Delivered env requestId req ⟨req.method, path, upstreamHeaders env
          (Relay.clientIp env.TRUSTED_CLIENT_IP_HEADER req.headers) requestId req.headers, payload⟩ :=
        delivered hreqPath hshape hallowed hpath hpayload
      exact Or.inr ⟨_, rfl, rfl, rfl, hdelivered⟩

theorem payload_of_sendable {env : RelayEnv} {hits : Hits} {now : Int} {req : SignRequest}
    (h : Sendable env hits now req) : payloadOf req ≠ none := by
  obtain ⟨token, tail, -, -, hallowed⟩ := h.shape
  have hmethod := allowed_method hallowed
  intro hnone
  rcases hmethod with hget | hpost
  · have hother : req.method ≠ .POST := by
      rw [hget]
      decide
    have hpayload : payloadOf req = some none :=
      (payloadOf_eq_some (Or.inl hget)).mpr ⟨fun _ => rfl, fun hpost => absurd hpost hother⟩
    cases hnone.symm.trans hpayload
  · have hother : req.method ≠ .GET := by
      rw [hpost]
      decide
    obtain ⟨bytes, hbytes⟩ := h.body hpost
    have hpayload : payloadOf req = some (some bytes) :=
      (payloadOf_eq_some (Or.inr hpost)).mpr ⟨fun hget => absurd hget hother, fun _ => ⟨bytes, rfl, hbytes⟩⟩
    cases hnone.symm.trans hpayload

theorem tooLong_iff {req : SignRequest} {length : ℚ} (h : declaredLength req.headers = .finite length) :
    (∀ l, declaredLength req.headers = .finite l → l ≤ MAX_SUBMIT_BYTES) ↔ ¬ length > MAX_SUBMIT_BYTES := by
  rw [not_lt]
  constructor
  · exact fun hall => hall length h
  · intro hle l hl
    cases h.symm.trans hl
    exact hle

theorem relay_cases (env : RelayEnv) (requestId : JsString) (now : Int) (fetch : Upstream → Option Answer)
    (hits : Hits) (req : SignRequest) :
    let r := relay env requestId now fetch hits req
    (r.2.1 = none ∧ r.2.2 = notFound ∧ ¬ Sendable env hits now req) ∨
      ∃ u, r.2.1 = some u ∧ r.2.2 = ((fetch u).map pipe).getD notFound ∧ Sendable env hits now req ∧
        Delivered env requestId req u := by
  unfold relay
  cases hshapeOf : shapeOf req with
  | none =>
      refine Or.inl ⟨rfl, rfl, fun hsendable => ?_⟩
      obtain ⟨token, tail, hshape⟩ := hsendable.shape
      cases hshapeOf.symm.trans (shapeOf_eq_some.mpr hshape)
  | some shape =>
      obtain ⟨token, tail⟩ := shape
      obtain ⟨hreqPath, htoken, hallowed⟩ := shapeOf_eq_some.mp hshapeOf
      have hmethod := allowed_method hallowed
      dsimp only
      cases hallow : allowRequest hits (Relay.clientIp env.TRUSTED_CLIENT_IP_HEADER req.headers) now with
      | mk ok hits' =>
          cases ok with
          | false =>
              refine Or.inl ⟨rfl, rfl, fun hsendable => ?_⟩
              have hroom := hsendable.room
              rw [hallow] at hroom
              cases hroom
          | true =>
              have hroom : (allowRequest hits (Relay.clientIp env.TRUSTED_CLIENT_IP_HEADER req.headers) now).1 =
                  true := by rw [hallow]
              -- Whatever the length declared, what is left to decide is the body.
              have hsend (hdeclared : ∀ l, declaredLength req.headers = .finite l → l ≤ MAX_SUBMIT_BYTES) :
                  let r := relay.send env requestId fetch req hits' token tail
                    (Relay.clientIp env.TRUSTED_CLIENT_IP_HEADER req.headers)
                  (r.2.1 = none ∧ r.2.2 = notFound ∧ ¬ Sendable env hits now req) ∨
                    ∃ u, r.2.1 = some u ∧ r.2.2 = ((fetch u).map pipe).getD notFound ∧
                      Sendable env hits now req ∧ Delivered env requestId req u := by
                rcases send_cases hreqPath htoken hallowed hits' with ⟨hnone, hanswer, hpayload⟩ | hsent
                · exact Or.inl ⟨hnone, hanswer, fun hsendable => payload_of_sendable hsendable hpayload⟩
                · obtain ⟨u, hu, hanswer, hpayload, hdelivered⟩ := hsent
                  refine Or.inr ⟨u, hu, hanswer, ⟨⟨token, tail, hreqPath, htoken, hallowed⟩, hroom, hdeclared, ?_⟩,
                    hdelivered⟩
                  intro hpost
                  obtain ⟨bytes, -, hbytes⟩ := hdelivered.written hpost
                  exact ⟨bytes, hbytes⟩
              dsimp only
              cases hlength : declaredLength req.headers with
              | finite length =>
                  dsimp only
                  by_cases hlong : length > MAX_SUBMIT_BYTES
                  · rw [if_pos hlong]
                    refine Or.inl ⟨rfl, rfl, fun hsendable => ?_⟩
                    exact absurd hlong ((tooLong_iff hlength).mp hsendable.declared)
                  · rw [if_neg hlong]
                    exact hsend ((tooLong_iff hlength).mpr hlong)
              | nan => exact hsend fun l hl => by cases hlength.symm.trans hl
              | infinite negative => exact hsend fun l hl => by cases hlength.symm.trans hl

/-- An answer of the relay sets no cookie and is not stored. -/
theorem pipe_headers (answer : Answer) : (pipe answer).headers.get (js "set-cookie") = none ∧
    (pipe answer).headers.get (js "cache-control") = some (js "no-store") := by
  unfold pipe
  refine ⟨?_, get_set_self _ _ _⟩
  rw [get_set_of_ne _ _ (by decide), get_filter answer.headers fun name => !STRIPPED_RESPONSE_HEADERS.contains name]
  exact if_neg (by decide)

/-- **What goes through the relay**, whatever the browser sends, the limiter keeps and the API answers.  A
request is sent on exactly when it is `Sendable`, and then as it is `Delivered`: the API has one handler for
it, with the token and the body as they came, its guard takes the relay's secret and counts the address the
relay has read, and of the browser's headers only the three that are taken over get through.
Everything else gets one and the same answer, and no answer sets a cookie or is stored. -/
theorem relay_sends (env : RelayEnv) (requestId : JsString) (now : Int) (fetch : Upstream → Option Answer)
    (hits : Hits) (req : SignRequest) :
    let r := relay env requestId now fetch hits req
    ((∃ u, r.2.1 = some u) ↔ Sendable env hits now req) ∧
      (r.2.1 = none → r.2.2 = notFound) ∧
      (∀ u, r.2.1 = some u → Delivered env requestId req u ∧ r.2.2 = ((fetch u).map pipe).getD notFound) ∧
      r.2.2.headers.get (js "set-cookie") = none ∧
      r.2.2.headers.get (js "cache-control") = some (js "no-store") := by
  have hnotFound : notFound.headers.get (js "set-cookie") = none ∧
      notFound.headers.get (js "cache-control") = some (js "no-store") := by decide
  dsimp only
  rcases relay_cases env requestId now fetch hits req with ⟨hnone, hanswer, hunsendable⟩ |
    ⟨u, hu, hanswer, hsendable, hdelivered⟩
  · refine ⟨⟨?_, fun hsendable => absurd hsendable hunsendable⟩, fun _ => hanswer, ?_, ?_⟩
    · rintro ⟨u, hu⟩
      cases hnone.symm.trans hu
    · intro u hu
      cases hnone.symm.trans hu
    · rw [hanswer]
      exact hnotFound
  · refine ⟨⟨fun _ => hsendable, fun _ => ⟨u, hu⟩⟩, ?_, ?_, ?_⟩
    · intro hnone
      cases hnone.symm.trans hu
    · intro u' hu'
      obtain rfl := Option.some.inj (hu.symm.trans hu')
      exact ⟨hdelivered, hanswer⟩
    · rw [hanswer]
      cases fetch u with
      | none => exact hnotFound
      | some answer => exact pipe_headers answer

end ESignSoft.Perimeter
