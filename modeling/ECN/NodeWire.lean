import ECN.FloatRepr
import ECN.JsonFields
import ECN.LineStream
import ECN.MessageLoss
import ECN.WireRefinement
import ECN.WireText

/-!
# The exchange over a connection

The sender writes the transaction as a line of JSON, the server reads a line, runs it and
writes a line, and the sender reads that line. Each direction brings a part of what was
written into it, in any pieces, and then ends, breaks or falls silent. Whatever the two
directions do, the exchange is one of the fates of a message: the request is lost, the
reply is lost, or the request is answered.
-/
namespace ECN

variable {rt : Runtime}

/-! ## The two programs -/

/-- The bytes a reader buffers before it gives a line up. -/
def readLimit : ℕ := 2 ^ 16

/-- What a server turns into an error reply. -/
inductive RequestFault where
  | overrun
  | reset
  | notJson
  | notObject
  | raised (e : Exc)

/-- One direction of a connection. -/
structure Link where
  deliver : List UInt8 → PieceStream UInt8
  carries : ∀ bytes, (deliver bytes).content <+: bytes

structure Connection where
  opens : Bool
  request : Link
  reply : Link
  latencyMs : ℚ

/-- The whole line gets through, and the reader takes it. -/
def Link.Carries (link : Link) (body : List UInt8) : Prop :=
  body.length ≤ readLimit ∧ Completes newline body (link.deliver (body ++ [newline]))

instance (link : Link) (body : List UInt8) : Decidable (link.Carries body) := by
  unfold Link.Carries
  infer_instance

namespace Wire

/-- The name of a field; the parser makes no other keys. -/
def fieldName : Scalar → PyStr
  | .str s => .text s
  | _ => .text ""

def ofScalar : Scalar → JsonScalar
  | .none => .null
  | .bool b => .bool b
  | .int n => .int n
  | .float x => .float x
  | .str s => .str (.text s)

mutual

/-- A parsed value as the sender sees it. -/
def ofValue : Value → Json
  | .scalar s => .scalar (ofScalar s)
  | .list vs => .list (ofValues vs)
  | .dict es => .object (ofItems es)

def ofValues : List Value → List Json
  | [] => []
  | v :: vs => ofValue v :: ofValues vs

def ofItems : List (Scalar × Value) → List (PyStr × Json)
  | [] => []
  | (k, v) :: es => (fieldName k, ofValue v) :: ofItems es

end

variable (py : Interp) (excText : RequestFault → String)

def errorFields (fault : RequestFault) : PyDict :=
  [(.str "error", .str (excText fault))]

/-- The fields of the object that a server writes. -/
def replyFields : Reply → PyDict
  | .result nodeId stateHash signature =>
    [(.str "node_id", .str nodeId), (.str "state_hash", .str stateHash),
      (.str "signature", optionalText signature)]
  | .error e => errorFields excText (.raised e)

/-- The text of a dictionary, as bytes. -/
def body (es : PyDict) : List UInt8 := utf8 ((Value.dict es).jsonText py)

/-- Serve one connection: the server and what it writes, so far. -/
def handleStream (server : NodeServer rt) (request : PieceStream UInt8) :
    NodeServer rt × List UInt8 :=
  match readline newline readLimit request with
  | .waiting => (server, [])
  | .overrun => (server, writeLine py (.dict (errorFields excText .overrun)))
  | .reset => (server, writeLine py (.dict (errorFields excText .reset)))
  | .line line =>
    if line = [] then (server, [])
    else
      match loadLine line with
      | none => (server, writeLine py (.dict (errorFields excText .notJson)))
      | some (.dict tx) => ((server.handleClient tx).1,
          writeLine py (.dict (replyFields excText (server.handleClient tx).2)))
      | some _ => (server, writeLine py (.dict (errorFields excText .notObject)))

/-- Read the reply, or raise. -/
def readReply (reply : PieceStream UInt8) (latencyMs : ℚ) : Option (Json × ℚ) :=
  match readline newline readLimit reply with
  | .line line => (loadLine line).map fun v => (ofValue v, latencyMs)
  | .overrun | .reset | .waiting => none

/-- Send `tx` to one server over a connection. -/
def sendOver (server : NodeServer rt) (tx : Transaction) (conn : Connection) :
    NodeServer rt × Option (Json × ℚ) :=
  if conn.opens then
    let served := handleStream py excText server (conn.request.deliver (writeLine py (.dict tx)))
    (served.1, readReply (conn.reply.deliver served.2) conn.latencyMs)
  else (server, none)

/-- What a connection does to the message. -/
def fate (server : NodeServer rt) (tx : Transaction) (conn : Connection) : Channel :=
  if conn.opens = true ∧ conn.request.Carries (body py tx) then
    if conn.reply.Carries (body py (replyFields excText (server.handleClient tx).2)) then
      .answered conn.latencyMs
    else .replyLost
  else .requestLost

/-! ## Reading a line -/

theorem isJsonDoc_error (fault : RequestFault) : IsJsonDoc (.dict (errorFields excText fault)) := by
  refine .dict (by simp [errorFields]) ?_ ?_
  · simp [errorFields]
  · simpa [errorFields] using isJsonDoc_str _

theorem isJsonDoc_reply (reply : Reply) : IsJsonDoc (.dict (replyFields excText reply)) := by
  cases reply with
  | result nodeId stateHash signature =>
    refine .dict (by simp [replyFields]) (by simp [replyFields]) ?_
    simp only [replyFields, List.mem_cons, List.not_mem_nil, or_false, forall_eq_or_imp, forall_eq]
    exact ⟨isJsonDoc_str _, isJsonDoc_str _, isJsonDoc_optionalText _⟩
  | error e => exact isJsonDoc_error excText _

variable {py} (hpy : py.ReprReads)

theorem body_ne_nil (py : Interp) (es : PyDict) : body py es ≠ [] := by
  intro hnil
  have hlen := congrArg List.length hnil
  rw [body, utf8, toList_jsonText_dict, List.flatMap_cons, List.length_append] at hlen
  have hpos : (String.utf8EncodeChar '\x7b').length = 1 := by decide
  simp only [hpos, List.length_nil] at hlen
  omega

include hpy

/-- A line that gets through is read as the object that was written. -/
theorem readline_of_carries {es : PyDict} (h : IsJsonDoc (.dict es)) {link : Link}
    (hlink : link.Carries (body py es)) :
    ∃ line, readline newline readLimit (link.deliver (writeLine py (.dict es))) = .line line ∧
      line ≠ [] ∧ loadLine line = some (.dict es) := by
  have hload := loadLine_dict hpy h
  rw [writeLine_eq]
  rcases readline_of_completes (newline_not_mem_jsonText hpy h) hlink.1 hlink.2 with hread | hread
  · exact ⟨_, hread, by simp, hload.2⟩
  · exact ⟨_, hread, body_ne_nil py es, hload.1⟩

/-- Of a line that does not get through, no object is read. -/
theorem loadLine_of_not_carries {es : PyDict} (h : IsJsonDoc (.dict es)) {link : Link}
    (hlink : ¬ link.Carries (body py es)) {line : List UInt8}
    (hread : readline newline readLimit (link.deliver (writeLine py (.dict es))) = .line line) :
    loadLine line = none := by
  have hcarries := link.carries (writeLine py (.dict es))
  rw [writeLine_eq] at hcarries hread
  obtain ⟨hpart, hne⟩ := readline_of_not_completes (newline_not_mem_jsonText hpy h) hcarries
    hlink hread
  exact loadLine_of_strict_part hpy h hpart hne

theorem readReply_of_carries {es : PyDict} (h : IsJsonDoc (.dict es)) {link : Link}
    (hlink : link.Carries (body py es)) (latencyMs : ℚ) :
    readReply (link.deliver (writeLine py (.dict es))) latencyMs =
      some (ofValue (.dict es), latencyMs) := by
  obtain ⟨line, hread, -, hload⟩ := readline_of_carries hpy h hlink
  simp only [readReply, hread, hload, Option.map_some]

theorem readReply_of_not_carries {es : PyDict} (h : IsJsonDoc (.dict es)) {link : Link}
    (hlink : ¬ link.Carries (body py es)) (latencyMs : ℚ) :
    readReply (link.deliver (writeLine py (.dict es))) latencyMs = none := by
  unfold readReply
  split
  · next line hread => rw [loadLine_of_not_carries hpy h hlink hread, Option.map_none]
  · rfl
  · rfl
  · rfl

omit hpy

/-- A server that writes nothing is not understood. -/
theorem readReply_nil (link : Link) (latencyMs : ℚ) :
    readReply (link.deliver []) latencyMs = none := by
  have hnil : (link.deliver []).content = [] := List.prefix_nil.mp (link.carries [])
  have hscan : scanBuffer newline readLimit [] = none := rfl
  rw [readReply, readline_eq, hnil, hscan, Option.getD_none]
  cases (link.deliver []).ending with
  | eof => rfl
  | reset => rfl
  | silent => rfl

/-! ## The exchange -/

theorem response_error (fault : RequestFault) (latencyMs : ℚ) :
    response (some (ofValue (.dict (errorFields excText fault)), latencyMs)) = none := rfl

theorem response_reply (reply : Reply) (latencyMs : ℚ) :
    response (some (ofValue (.dict (replyFields excText reply)), latencyMs)) =
      (ECN.receive latencyMs reply).map fun p => (ofResult p.1, p.2) := by
  cases reply with
  | error e => rfl
  | result nodeId stateHash signature => cases signature <;> rfl

include hpy

/-- An error reply is a failure whatever arrives of it. -/
theorem response_readReply_error (fault : RequestFault) (link : Link) (latencyMs : ℚ) :
    response (readReply (link.deliver (writeLine py (.dict (errorFields excText fault))))
      latencyMs) = none := by
  have hjson := isJsonDoc_error excText fault
  by_cases hlink : link.Carries (body py (errorFields excText fault))
  · rw [readReply_of_carries hpy hjson hlink, response_error]
  · rw [readReply_of_not_carries hpy hjson hlink]
    rfl

variable {tx : Transaction} (htx : IsJsonDoc (.dict tx))
include htx

theorem handleStream_of_carries (server : NodeServer rt) {link : Link}
    (hlink : link.Carries (body py tx)) :
    handleStream py excText server (link.deliver (writeLine py (.dict tx))) =
      ((server.handleClient tx).1,
        writeLine py (.dict (replyFields excText (server.handleClient tx).2))) := by
  obtain ⟨line, hread, hne, hload⟩ := readline_of_carries hpy htx hlink
  simp only [handleStream, hread, hload, if_neg hne]

/-- A request that does not get through changes nothing on the server, which writes nothing
or an error. -/
theorem handleStream_of_not_carries (server : NodeServer rt) {link : Link}
    (hlink : ¬ link.Carries (body py tx)) :
    ∃ out, handleStream py excText server (link.deliver (writeLine py (.dict tx))) =
      (server, out) ∧
      (out = [] ∨ ∃ fault, out = writeLine py (.dict (errorFields excText fault))) := by
  cases hread : readline newline readLimit (link.deliver (writeLine py (.dict tx))) with
  | waiting => exact ⟨_, by simp only [handleStream, hread], .inl rfl⟩
  | overrun => exact ⟨_, by simp only [handleStream, hread], .inr ⟨.overrun, rfl⟩⟩
  | reset => exact ⟨_, by simp only [handleStream, hread], .inr ⟨.reset, rfl⟩⟩
  | line line =>
    have hload := loadLine_of_not_carries hpy htx hlink hread
    by_cases hline : line = []
    · exact ⟨[], by simp only [handleStream, hread, if_pos hline], .inl rfl⟩
    · exact ⟨_, by simp only [handleStream, hread, if_neg hline, hload], .inr ⟨.notJson, rfl⟩⟩

/-- The exchange is the fate of a message: the server ends in the same state and the sender
takes the same response. -/
theorem sendOver_fate (server : NodeServer rt) (conn : Connection) :
    (sendOver py excText server tx conn).1 =
        (sendToServer server tx (fate py excText server tx conn)).1 ∧
      response (sendOver py excText server tx conn).2 =
        (sendToServer server tx (fate py excText server tx conn)).2.map
          fun p => (ofResult p.1, p.2) := by
  unfold sendOver fate
  by_cases hopen : conn.opens = true
  · rw [if_pos hopen]
    dsimp only
    by_cases hrequest : conn.request.Carries (body py tx)
    · rw [if_pos ⟨hopen, hrequest⟩, handleStream_of_carries excText hpy htx server hrequest]
      have hjson := isJsonDoc_reply excText (server.handleClient tx).2
      by_cases hreply : conn.reply.Carries
          (body py (replyFields excText (server.handleClient tx).2))
      · rw [if_pos hreply, readReply_of_carries hpy hjson hreply, response_reply]
        exact ⟨rfl, rfl⟩
      · rw [if_neg hreply, readReply_of_not_carries hpy hjson hreply]
        exact ⟨rfl, rfl⟩
    · obtain ⟨out, hserved, hout⟩ := handleStream_of_not_carries excText hpy htx server hrequest
      rw [if_neg fun h => hrequest h.2, hserved]
      refine ⟨rfl, ?_⟩
      rcases hout with rfl | ⟨fault, rfl⟩
      · rw [readReply_nil]
        rfl
      · rw [response_readReply_error excText hpy]
        rfl
  · rw [if_neg hopen, if_neg fun h => hopen h.1]
    exact ⟨rfl, rfl⟩

omit hpy htx in
theorem isLossy_fate (py : Interp) (server : NodeServer rt) (tx : Transaction)
    (conn : Connection) : (fate py excText server tx conn).IsLossy := by
  unfold fate
  split
  · split <;> trivial
  · trivial

end Wire

/-! ## The broadcast -/

/-- One broadcast over connections. -/
structure WireRound (rt : Runtime) where
  tx : Transaction
  now : ℕ
  verbose : Bool
  conns : NodeServer rt → Connection

namespace Wire

variable (R : Rounding) (containerRepr : Json → String) (excText : RequestFault → String)

/-- The round as the messages see it. -/
def toRound (round : WireRound rt) : Round rt :=
  ⟨round.tx, round.now, fun server => fate rt.toInterp excText server round.tx
    (round.conns server)⟩

/-- A broadcast over connections: the servers and the health records after it, and its
outcome. -/
def broadcastOver (net : P2PNetwork rt) (round : WireRound rt) :
    P2PNetwork rt × Except RoundError (List WireResult × WireConsensus) :=
  let send (server : NodeServer rt) :=
    sendOver rt.toInterp excText server round.tx (round.conns server)
  let out := broadcast R containerRepr net round.now round.verbose fun server => (send server).2
  ({ net with
      servers := net.servers.map fun s => if net.isParticipating s then (send s).1 else s
      health := out.1 }, out.2)

def playOver (net : P2PNetwork rt) (round : WireRound rt) : P2PNetwork rt :=
  (broadcastOver R containerRepr excText net round).1

/-- The parts of a network that a broadcast reads. -/
structure Agrees (wired net : P2PNetwork rt) : Prop where
  servers : wired.servers = net.servers
  health : wired.health = net.health
  quorumThreshold : wired.quorumThreshold = net.quorumThreshold
  minResponses : wired.minResponses = net.minResponses

theorem broadcast_congr {replies replies' : NodeServer rt → Option (Json × ℚ)}
    (h : ∀ server, response (replies server) = response (replies' server))
    (net : P2PNetwork rt) (now : ℕ) (verbose : Bool) :
    broadcast R containerRepr net now verbose replies =
      broadcast R containerRepr net now verbose replies' := by
  have hgather : gather net replies = gather net replies' :=
    List.map_congr_left fun server _ => by rw [h]
  unfold broadcast
  rw [hgather]

theorem play_settings (net : P2PNetwork rt) (round : Round rt) :
    (net.play R round).quorumThreshold = net.quorumThreshold ∧
      (net.play R round).minResponses = net.minResponses := by
  unfold P2PNetwork.play P2PNetwork.broadcast P2PNetwork.collect
  dsimp only
  split <;> exact ⟨rfl, rfl⟩

/-- One broadcast over connections is one broadcast of messages. -/
theorem broadcastOver_toRound (hpy : rt.toInterp.ReprReads) {round : WireRound rt}
    (htx : IsJsonDoc (.dict round.tx)) {wired net : P2PNetwork rt} (h : Agrees wired net) :
    Agrees (playOver R containerRepr excText wired round) (net.play R (toRound excText round)) ∧
      (broadcastOver R containerRepr excText wired round).2 =
        ofOutcome (net.broadcast R round.now round.tx (toRound excText round).channel).2 := by
  obtain ⟨servers, auditLog, quorumThreshold, minResponses, history, health⟩ := wired
  obtain ⟨rfl, rfl, rfl, rfl⟩ := h
  have hsend := fun server => sendOver_fate excText hpy htx server (round.conns server)
  have hreplies : broadcast R containerRepr net round.now round.verbose
      (fun server => (sendOver rt.toInterp excText server round.tx (round.conns server)).2) =
      ((net.broadcast R round.now round.tx (toRound excText round).channel).1.health,
        ofOutcome (net.broadcast R round.now round.tx (toRound excText round).channel).2) := by
    rw [← broadcast_repliesOf R containerRepr net round.now round.verbose round.tx
      (toRound excText round).channel]
    refine broadcast_congr R containerRepr (fun server => ?_) net round.now round.verbose
    rw [(hsend server).2, response_repliesOf]
    rfl
  have hserve : (net.servers.map fun s => if net.isParticipating s then
      (sendOver rt.toInterp excText s round.tx (round.conns s)).1 else s) =
      net.serve round.tx (toRound excText round).channel := by
    refine List.map_congr_left fun s _ => ?_
    rw [(hsend s).1]
    rfl
  have hplay : (net.play R (toRound excText round)).servers =
      net.serve round.tx (toRound excText round).channel := net.play_servers R _
  refine ⟨⟨hserve.trans hplay.symm, congrArg Prod.fst hreplies, ?_, ?_⟩,
    congrArg Prod.snd hreplies⟩
  · exact (play_settings R net _).1.symm
  · exact (play_settings R net _).2.symm

/-- Whatever the connections of all rounds do, the servers, the health records and the
outcome of every further round are those of a run in which messages are lost or answered. -/
theorem playOver_run (hpy : rt.toInterp.ReprReads) (net : P2PNetwork rt)
    (rounds : List (WireRound rt)) (hrounds : ∀ round ∈ rounds, IsJsonDoc (.dict round.tx))
    (next : WireRound rt) (hnext : IsJsonDoc (.dict next.tx)) :
    let wired := rounds.foldl (playOver R containerRepr excText) net
    let typed := (rounds.map (toRound excText)).foldl (P2PNetwork.play R) net
    wired.servers = typed.servers ∧ wired.health = typed.health ∧
      (broadcastOver R containerRepr excText wired next).2 =
        ofOutcome (typed.broadcast R next.now next.tx (toRound excText next).channel).2 ∧
      ∀ round : WireRound rt, ∀ server, ((toRound excText round).channel server).IsLossy := by
  have hrun : ∀ {wired net : P2PNetwork rt}, Agrees wired net →
      Agrees (rounds.foldl (playOver R containerRepr excText) wired)
        ((rounds.map (toRound excText)).foldl (P2PNetwork.play R) net) := by
    induction rounds with
    | nil =>
      intro wired net h
      exact h
    | cons round rounds ih =>
      intro wired net h
      have hstep := (broadcastOver_toRound R containerRepr excText hpy
        (hrounds round List.mem_cons_self) h).1
      exact ih (fun r hr => hrounds r (List.mem_cons_of_mem _ hr)) hstep
  have hsame : Agrees net net := ⟨rfl, rfl, rfl, rfl⟩
  have hagrees := hrun hsame
  exact ⟨hagrees.servers, hagrees.health,
    (broadcastOver_toRound R containerRepr excText hpy hnext hagrees).2,
    fun round server => isLossy_fate excText rt.toInterp server round.tx (round.conns server)⟩

/-! ### Two connections -/

/-- Each byte comes alone. -/
def bytewise : Link where
  deliver bytes := ⟨bytes.map fun b => [b], .eof⟩
  carries bytes := by
    have hflat : (bytes.map fun b => [b]).flatten = bytes := by
      induction bytes with
      | nil => rfl
      | cons b bytes ih => rw [List.map_cons, List.flatten_cons, ih, List.singleton_append]
    rw [PieceStream.content, hflat]

/-- The connection breaks after some bytes. -/
def cutAfter (n : ℕ) : Link where
  deliver bytes := ⟨[bytes.take n], .reset⟩
  carries bytes := by simpa [PieceStream.content] using List.take_prefix n bytes

def loneServer : P2PNetwork printingRuntime :=
  .init .binary64 none [.init _ "Node-1" overdraftState "127.0.0.1" 9001 [1] false]
    none none none none

def withdrawalOver (request reply : Link) : WireRound printingRuntime where
  tx := withdrawal
  now := 0
  verbose := true
  conns _ := ⟨true, request, reply, 1⟩

theorem isJsonDoc_withdrawal : IsJsonDoc (.dict withdrawal) := by
  have hscalar : ∀ e ∈ withdrawal, ∃ s : Scalar, e.2 = .scalar s ∧ s.isJson = true := by
    simp [withdrawal, Scalar.isJson]
  refine .dict (by decide) (by simp [withdrawal]) fun e he => ?_
  obtain ⟨s, hs, hjson⟩ := hscalar e he
  rw [hs]
  exact .scalar hjson

def brokenReply : List (WireRound printingRuntime) := [withdrawalOver bytewise (cutAfter 7)]

theorem isJsonDoc_brokenReply : ∀ round ∈ brokenReply, IsJsonDoc (.dict round.tx) := by
  intro round hround
  rw [brokenReply, List.mem_singleton] at hround
  subst hround
  exact isJsonDoc_withdrawal

/-- A broken reply and then a request in single bytes. -/
theorem playOver_run_broken :
    let wired := brokenReply.foldl (playOver .binary64 (fun _ => "") fun _ => "") loneServer
    let typed := (brokenReply.map (toRound fun _ => "")).foldl (P2PNetwork.play .binary64)
      loneServer
    wired.servers = typed.servers ∧ wired.health = typed.health := by
  have h := playOver_run .binary64 (fun _ => "") (fun _ => "") reprReads_printingRuntime
    loneServer brokenReply isJsonDoc_brokenReply (withdrawalOver bytewise bytewise)
    isJsonDoc_withdrawal
  exact ⟨h.1, h.2.1⟩

end Wire
end ECN
