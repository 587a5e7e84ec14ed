/-
Query-level conformance: `mantis-filter/src/protocol.rs`.

`validateQuery` is the gate in front of policy and forwarding; the EDNS and
cookie negotiation and the extended error only touch the response's OPT
record.
-/
import MantisDns.Dns

open Text Dns

namespace Node

/-- `MAX_EDNS_VERSION`. -/
def maxEdnsVersion : UInt8 := 0

/-- `MAX_UDP_PAYLOAD`. -/
def maxUdpPayload : UInt16 := 4096

/-- `EDE_FILTERED`. -/
def edeFiltered : UInt16 := 17

/-- `QueryAction`. -/
inductive QueryAction
  | process
  | answer (records : List Record)
  | reject (code : ResponseCode)
  deriving DecidableEq

/-- `disallowed_qtype_rcode`. -/
def disallowedQtypeRcode : RecordType → Option ResponseCode
  | .axfr | .ixfr => some .refused
  | .opt | .tsig => some .formErr
  | _ => none

/-- `answer_chaos`. -/
def answerChaos (H : Hickory) (name : Name) (qtype : RecordType) (nodeName : Str) :
    Option (List Record) :=
  if qtype ≠ .txt then none
  else
    let label := lowerAscii (trimDots (H.toAscii name))
    let answer (value : Str) : Option (List Record) := some [⟨name, 0, .txt [utf8 value]⟩]
    if label = "version.bind" ∨ label = "version.server" then
      answer "mantis-filter"
    else if label = "hostname.bind" ∨ label = "id.server" then answer nodeName
    else none

/-- `validate_query`. -/
def validateQuery (H : Hickory) (query : Message) (nodeName : Str) : QueryAction :=
  if query.opCode ≠ .query then .reject .notImp
  else
    match query.queries with
    | [question] =>
      match question.queryClass with
      | .internet =>
        match disallowedQtypeRcode question.queryType with
        | some rcode => .reject rcode
        | none => .process
      | .chaos =>
        match answerChaos H question.name question.queryType nodeName with
        | some records => .answer records
        | none => .reject .refused
      | .other _ => .reject .refused
    | _ => .reject .formErr

/-- `should_process`. -/
def shouldProcess (query : Message) : Bool := query.messageType == .query

/-- `negotiate_edns`: the response with its OPT record, and whether the version
is one this server does not speak. -/
def negotiateEdns (query response : Message) : Message × Bool :=
  match query.edns with
  | none => (response, false)
  | some reqEdns =>
    let maxPayload := max 512 (min reqEdns.maxPayload maxUdpPayload)
    ({ response with
        edns := some { Edns.new with maxPayload, dnssecOk := reqEdns.dnssecOk } },
      reqEdns.version > maxEdnsVersion)

/-- `EdnsCode::Cookie`. -/
def cookieCode : UInt16 := 10

/-- `negotiate_cookie`, with `CookieSecret::server_cookie` under the process's
secret. -/
def negotiateCookie (serverCookie : IpAddr → List UInt8 → List UInt8) (query response : Message)
    (clientIp : IpAddr) : Message :=
  match query.edns.bind (·.get cookieCode) with
  | none => response
  | some data =>
    if data.length < 8 then response
    else
      let clientCookie := data.take 8
      { response with
        edns := response.edns.map fun edns =>
          edns.insert cookieCode (clientCookie ++ serverCookie clientIp clientCookie) }

/-- `attach_extended_error`: option 15, the info code in network order and the
text. -/
def attachExtendedError (response : Message) (infoCode : UInt16) (extraText : Str) : Message :=
  { response with
    edns := response.edns.map fun edns =>
      edns.insert 15 ([(infoCode >>> 8).toUInt8, infoCode.toUInt8] ++ utf8 extraText) }

end Node
