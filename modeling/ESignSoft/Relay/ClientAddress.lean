import ESignSoft.Lib.HttpHeaders

/-!
# The address recorded for a signer

The public signing app takes the address of a request from its headers: the middleware strips what a
client could have written, and `clientIp` reads what is left in an order of its own.  On the single VM
the only header written in front of the app is `x-forwarded-for`, to which the proxy appends the address
of the peer.

* `relayedAddress_eq` — what is recorded is the peer's address, unless the client wrote a value into
  `x-vercel-forwarded-for`: that header is read first and is not on the strip list;
* `same_address_iff` — so two requests over one connection address are recorded alike exactly when what
  they claim there agrees.
-/

namespace ESignSoft.Relay

open ESignSoft.Lib.JsText ESignSoft.Lib.HttpHeaders

/-! ## The middleware -/

/-- `DANGEROUS_INBOUND`, on a header name as `keys` lists it. -/
def DANGEROUS_INBOUND (key : JsString) : Bool :=
  (js "x-tenant-").isPrefixOf key || key == js "x-internal-auth" || key == js "x-client-ip" ||
    [js "auth", js "authorization", js "user", js "email", js "role", js "roles", js "permissions"].any
      (fun suffix => key == js "x-forwarded-" ++ suffix) ||
    key == js "authorization"

def FORGEABLE_ADDRESS_HEADERS : List JsString :=
  [js "cf-connecting-ip", js "true-client-ip", js "x-real-ip", js "fastly-client-ip",
    js "x-cluster-client-ip", js "x-client-ip"]

/-- `process.env.TRUSTED_CLIENT_IP_HEADER?.trim().toLowerCase()`. -/
def trustedHeader (env : Option JsString) : Option JsString := env.map fun v => byteLowerCase (trim v)

/-- A header the middleware lets through. -/
def passes (env : Option JsString) (key : JsString) : Bool :=
  trustedHeader env == some key || !(DANGEROUS_INBOUND key || FORGEABLE_ADDRESS_HEADERS.contains key)

/-- The request headers the middleware hands on; the nonce and the policy are its own. -/
def middleware (env : Option JsString) (nonce csp : JsString) (headers : Headers) : Headers :=
  let requestHeaders : Headers := headers.filter fun entry => passes env entry.1
  Headers.set (Headers.set requestHeaders (js "x-nonce") nonce) (js "content-security-policy") csp

/-! ## The relay -/

def bounded (value : JsString) : JsString := if value.length > 45 then [] else value

/-- `value || 'unknown'`. -/
def orUnknown (value : JsString) : JsString := if value = [] then js "unknown" else value

/-- The first entry of a header that may carry one value. -/
def firstAddress (value : JsString) : JsString :=
  orUnknown (bounded (trim ((value.splitOn 0x2C).headD [])))

/-- The last hop of a chain of addresses, empty entries aside. -/
def nearestHop (chain : JsString) : Option JsString :=
  (((chain.splitOn 0x2C).map trim).filter fun hop => hop != []).getLast?

/-- A header's value where it is there and not empty. -/
def truthy (value : Option JsString) : Option JsString := value.filter fun v => v != []

def clientIp (env : Option JsString) (headers : Headers) : JsString :=
  match (truthy (trustedHeader env)).bind fun named => truthy (headers.get named) with
  | some value => firstAddress value
  | none =>
      match truthy (headers.get (js "x-vercel-forwarded-for")) with
      | some vercel => firstAddress vercel
      | none =>
          match (truthy (headers.get (js "x-forwarded-for"))).bind nearestHop with
          | some nearest => orUnknown (bounded nearest)
          | none => js "unknown"

/-! ## Behind the proxy -/

/-- An address of a connection: not empty, without commas and white space. -/
structure PeerAddress where
  value : JsString
  nonempty : value ≠ []
  clean : ∀ u ∈ value, u ≠ 0x2C ∧ isWhiteSpace u = false

/-- The proxy appends the peer's address to `x-forwarded-for` and passes the rest on. -/
def forward (peer : PeerAddress) (headers : Headers) : Headers :=
  headers.set (js "x-forwarded-for")
    (match headers.get (js "x-forwarded-for") with
    | some chain => chain ++ js ", " ++ peer.value
    | none => peer.value)

/-- The address recorded for a request whose client wrote the header lines given, with
`TRUSTED_CLIENT_IP_HEADER` not set. -/
def relayedAddress (peer : PeerAddress) (nonce csp : JsString) (lines : List (JsString × JsString)) :
    JsString :=
  clientIp none (middleware none nonce csp (forward peer (Headers.ofLines lines)))

/-- What is recorded of the peer itself. -/
def peerAddress (peer : PeerAddress) : JsString := orUnknown (bounded peer.value)

/-- The value the client wrote into `x-vercel-forwarded-for`, if any. -/
def claimed (lines : List (JsString × JsString)) : Option JsString :=
  truthy ((Headers.ofLines lines).get (js "x-vercel-forwarded-for"))

theorem trim_of_clean {s : JsString} (h : ∀ u ∈ s, isWhiteSpace u = false) : trim s = s := by
  have hdrop (t : JsString) (ht : ∀ u ∈ t, isWhiteSpace u = false) : t.dropWhile isWhiteSpace = t := by
    cases t with
    | nil => rfl
    | cons u rest => rw [List.dropWhile_cons_of_neg (by simp [ht u (by simp)])]
  have hreverse : ∀ u ∈ s.reverse, isWhiteSpace u = false := fun u hu => h u (List.mem_reverse.mp hu)
  rw [trim, hdrop s h, hdrop _ hreverse, List.reverse_reverse]

/-- One space before a text without white space is trimmed away. -/
theorem trim_space_cons {s : JsString} (h : ∀ u ∈ s, isWhiteSpace u = false) : trim (0x20 :: s) = s := by
  have hspace : trim (0x20 :: s) = trim s := by
    rw [trim, List.dropWhile_cons_of_pos (by decide), trim]
  rw [hspace, trim_of_clean h]

section Peer

variable (peer : PeerAddress)

theorem splitOn_peer : peer.value.splitOn 0x2C = [peer.value] :=
  List.splitOn_eq_singleton fun hmem => (peer.clean _ hmem).1 rfl

theorem nearestHop_peer : nearestHop peer.value = some peer.value := by
  have htrim := trim_of_clean fun u hu => (peer.clean u hu).2
  simp [nearestHop, splitOn_peer, htrim, peer.nonempty]

/-- What the client put before it, the peer's address is the nearest hop. -/
theorem nearestHop_append (chain : JsString) :
    nearestHop (chain ++ js ", " ++ peer.value) = some peer.value := by
  have hcomma : chain ++ js ", " ++ peer.value = chain ++ 0x2C :: 0x20 :: peer.value := by
    simp [show js ", " = [0x2C, 0x20] by decide]
  have hlast : (0x20 :: peer.value).splitOn 0x2C = [0x20 :: peer.value] := by
    refine List.splitOn_eq_singleton fun hmem => ?_
    rcases List.mem_cons.mp hmem with h | h
    · exact absurd h (by decide)
    · exact (peer.clean _ h).1 rfl
  have htrim := trim_space_cons fun u hu => (peer.clean u hu).2
  rw [hcomma, nearestHop, List.splitOn_append_cons_self, hlast]
  simp [htrim, peer.nonempty]

theorem forwarded_hop (headers : Headers) :
    (truthy ((forward peer headers).get (js "x-forwarded-for"))).bind nearestHop = some peer.value := by
  unfold forward
  rw [get_set_self]
  cases headers.get (js "x-forwarded-for") with
  | none =>
      simp only [truthy, Option.filter_some, bne_iff_ne, ne_eq, peer.nonempty, not_false_iff, if_true,
        Option.bind_some]
      exact nearestHop_peer peer
  | some chain =>
      -- Whatever chain the client sent, it ends in the peer's address now.
      have hnonempty : chain ++ js ", " ++ peer.value ≠ [] := by simp [peer.nonempty]
      simp only [truthy, Option.filter_some, bne_iff_ne, ne_eq, hnonempty, not_false_iff, if_true,
        Option.bind_some]
      exact nearestHop_append peer chain

end Peer

/-- What the middleware does not strip, and does not set itself, is read behind it as before. -/
theorem get_middleware {env : Option JsString} {nonce csp : JsString} {headers : Headers}
    {name : JsString} (hpasses : passes env name = true) (hnonce : name ≠ js "x-nonce")
    (hcsp : name ≠ js "content-security-policy") :
    (middleware env nonce csp headers).get name = headers.get name := by
  rw [middleware, get_set_of_ne _ _ hcsp, get_set_of_ne _ _ hnonce, get_filter headers (passes env),
    if_pos hpasses]

/-- **What is recorded**: the client's claim in `x-vercel-forwarded-for`, or else the peer's address. -/
theorem relayedAddress_eq (peer : PeerAddress) (nonce csp : JsString)
    (lines : List (JsString × JsString)) :
    relayedAddress peer nonce csp lines =
      match claimed lines with
      | some value => firstAddress value
      | none => peerAddress peer := by
  have hvercel : (middleware none nonce csp (forward peer (Headers.ofLines lines))).get
      (js "x-vercel-forwarded-for") = (Headers.ofLines lines).get (js "x-vercel-forwarded-for") := by
    rw [get_middleware (by decide) (by decide) (by decide), forward, get_set_of_ne _ _ (by decide)]
  have hchain : (middleware none nonce csp (forward peer (Headers.ofLines lines))).get
      (js "x-forwarded-for") = (forward peer (Headers.ofLines lines)).get (js "x-forwarded-for") :=
    get_middleware (by decide) (by decide) (by decide)
  have hnamed : trustedHeader none = none := rfl
  unfold relayedAddress clientIp
  rw [hvercel, hchain, forwarded_hop, hnamed, ← claimed]
  rfl

/-- Two requests over one connection address claim the same address: neither claims any, or the claims
read alike, or one claims what is recorded of the peer. -/
def ClaimsAgree (peer : PeerAddress) (lines lines' : List (JsString × JsString)) : Prop :=
  match claimed lines, claimed lines' with
  | none, none => True
  | some value, none => firstAddress value = peerAddress peer
  | none, some value' => firstAddress value' = peerAddress peer
  | some value, some value' => firstAddress value = firstAddress value'

/-- **Two runs over one connection address record the same signer's address exactly when the claims in
`x-vercel-forwarded-for` agree**; every other header the clients wrote is without effect. -/
theorem same_address_iff (peer : PeerAddress) (nonce csp nonce' csp' : JsString)
    (lines lines' : List (JsString × JsString)) :
    relayedAddress peer nonce csp lines = relayedAddress peer nonce' csp' lines' ↔
      ClaimsAgree peer lines lines' := by
  rw [relayedAddress_eq, relayedAddress_eq, ClaimsAgree]
  cases claimed lines with
  | none =>
      cases claimed lines' with
      | none => simp
      | some value' => exact eq_comm
  | some value =>
      cases claimed lines' with
      | none => rfl
      | some value' => rfl

/-- The connection address of the example. -/
def examplePeer : PeerAddress where
  value := js "203.0.113.9"
  nonempty := by decide
  clean u hu := by
    have hall : (js "203.0.113.9").all (fun v => v != 0x2C && !isWhiteSpace v) = true := by decide
    simpa using List.all_eq_true.mp hall u hu

/-- One header the client writes is enough to be recorded under an address of its choice. -/
theorem address_chosen_by_client :
    ¬ ∀ (peer : PeerAddress) (nonce csp nonce' csp' : JsString)
        (lines lines' : List (JsString × JsString)),
      relayedAddress peer nonce csp lines = relayedAddress peer nonce' csp' lines' := by
  intro h
  have hsame := h examplePeer [] [] [] [] [] [(js "X-Vercel-Forwarded-For", js "198.51.100.7")]
  exact absurd hsame (by decide)

end ESignSoft.Relay
