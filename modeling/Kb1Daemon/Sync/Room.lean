import Kb1Daemon.Session.Load
import Kb1Daemon.Sync.Replica

/-! # The clients of a session

A room is an open session with the clients that have synced with it. A client
types on its own document and sends each update over its socket; the session
applies it and broadcasts it to the other sockets. Before it applies an update,
the session tests whether the update looks like one of an independent document
(`hasUnsafeIndependentUpdate`) and closes the socket if it does.

The test applies the update to a fresh document and compares the clients of the
two documents. An update typed on a document with a history depends on that
history and shows no text in a fresh document. An update typed on a document
without any struct does, so it is refused when another client's text has been
saved before it arrives (`concurrent_first_edit_refused`). No other update of a
synced client is refused (`live_edits_accepted`).
-/

namespace Kb1Daemon

namespace Session

variable {S : SyncRuntime}

/-- The session serves its document. -/
def isOpened (session : Session S.toRuntime) : Bool := session.opened && !session.deleted

/-- The two state vectors have a client in common. -/
def stateVectorsShareClient (left right : List (Nat × Nat)) : Bool :=
  left.any fun entry => right.any fun other => other.1 == entry.1

/-- The update looks like one of a document without a common history. -/
def hasUnsafeIndependentUpdate (session : Session S.toRuntime) (update : S.Update) : Bool :=
  if !session.hasNonEmptyMaterializedContent then false
  else if session.currentContent.isEmpty then false
  else
    let incomingDoc := S.applyUpdate S.emptyDoc update
    if (S.text incomingDoc).isEmpty then false
    else !stateVectorsShareClient (S.stateVector session.doc) (S.stateVector incomingDoc)

/-- What becomes of a message with an update. -/
inductive SyncMessageResult where
  | processed
  | closed
  deriving DecidableEq, Repr

/-- Process a message with an update: test it, then apply it. -/
def processUpdate (session : Session S.toRuntime) (update : S.Update)
    (attribution : Option S.Attribution) : Session S.toRuntime × SyncMessageResult :=
  if session.hasUnsafeIndependentUpdate update then (session, .closed)
  else (session.applyUpdate update attribution, .processed)

end Session

/-- The state of a client's socket. -/
inductive SocketState where
  | connected
  /-- Closed with the unsafe divergence failure. -/
  | divergent
  /-- Closed with the not found failure. -/
  | notFound
  deriving DecidableEq, Repr

/-- An update on its way to the session. -/
structure Sent (S : SyncRuntime) where
  update : S.Update
  /-- The update inserts text into a document without structs. -/
  blank : Bool

/-- A client that has synced with the session. -/
structure SyncClient (S : SyncRuntime) where
  id : Nat
  attribution : Option S.Attribution
  doc : S.Doc
  outbox : List (Sent S)
  inbox : List S.Update
  socket : SocketState

namespace SyncClient

variable {S : SyncRuntime}

/-- A client right after its initial sync with a document. -/
def joined (id : Nat) (attribution : Option S.Attribution) (doc : S.Doc) : SyncClient S where
  id := id
  attribution := attribution
  doc := S.sync doc
  outbox := []
  inbox := []
  socket := .connected

/-- The user replaces a range of the text. -/
def type (client : SyncClient S) (index length : Nat) (content : JsString) : SyncClient S :=
  let edited := S.edit client.id client.doc index length content
  { client with
    doc := edited.1
    outbox := client.outbox ++
      [⟨edited.2, (S.structs client.doc).isEmpty && !content.isEmpty⟩] }

/-- A broadcast update is sent to a client whose socket is open. -/
def send (client : SyncClient S) (update : Option S.Update) : SyncClient S :=
  if client.socket = .connected then { client with inbox := client.inbox ++ update.toList }
  else client

/-- The socket is closed when the session's document has been deleted. -/
def closeDeletedDocument (client : SyncClient S) : SyncClient S :=
  if client.socket = .connected then { client with socket := .notFound } else client

end SyncClient

/-- A session with the clients that have synced with it. -/
structure Room (S : SyncRuntime) where
  site : Site S.toRuntime
  clients : List (SyncClient S)

namespace Room

variable {S : SyncRuntime}

/-- The session has become another: its update is broadcast to the other sockets,
and a deletion closes them all. -/
def follow (room : Room S) (origin : Option Nat) (site : Site S.toRuntime) : Room S where
  site := site
  clients :=
    (room.clients.mapIdx fun position client =>
      if some position = origin then client
      else client.send (S.change room.site.session.doc site.session.doc)).map fun client =>
        if site.session.deleted then client.closeDeletedDocument else client

/-- The session processes an update of a client. -/
def processSyncMessage (room : Room S) (position : Nat) (client : SyncClient S)
    (update : S.Update) : Room S :=
  if room.site.session.isOpened then
    match room.site.session.processUpdate update client.attribution with
    | (_, .closed) =>
        { room with clients := room.clients.set position { client with socket := .divergent } }
    | (session, .processed) =>
        { room with clients := room.clients.set position client }.follow (some position)
          { room.site with session := session }
  else
    { room with clients := room.clients.set position client.closeDeletedDocument }

end Room

/-- The steps of a room. -/
inductive RoomLabel (S : SyncRuntime) where
  /-- A client completes its initial sync. -/
  | join (id : Nat) (attribution : Option S.Attribution)
  /-- A client replaces a range of its text. -/
  | edit (position index length : Nat) (content : JsString)
  /-- A client's oldest unprocessed update reaches the session. -/
  | deliver (position : Nat)
  /-- The oldest broadcast update reaches a client. -/
  | receive (position : Nat)
  /-- The session takes a step of its own. -/
  | session (label : SessionLabel S.toRuntime)

/-- The label applies an update of a client. -/
def SessionLabel.ofClient {R : Runtime} : SessionLabel R → Bool
  | .update _ _ => true
  | _ => false

/-- The machine of a room. -/
def roomMachine (S : SyncRuntime) : Machine (Room S) (RoomLabel S) where
  step room label :=
    match label with
    | .join id attribution =>
        if room.site.session.isOpened then
          some { room with clients := room.clients ++
            [SyncClient.joined id attribution room.site.session.doc] }
        else none
    | .edit position index length content =>
        (room.clients[position]?).map fun client =>
          { room with clients := room.clients.set position (client.type index length content) }
    | .deliver position =>
        match room.clients[position]? with
        | none => none
        | some client =>
            match client.socket, client.outbox with
            | .connected, sent :: rest =>
                some (room.processSyncMessage position { client with outbox := rest } sent.update)
            | _, _ => none
    | .receive position =>
        match room.clients[position]? with
        | none => none
        | some client =>
            match client.inbox with
            | update :: rest =>
                let received :=
                  { client with doc := S.applyUpdate client.doc update, inbox := rest }
                some { room with clients := room.clients.set position received }
            | [] => none
    | .session label =>
        if label.ofClient then none
        else ((sessionMachine S.toRuntime).step room.site label).map (room.follow none)

/-- The label delivers an insertion into a document without structs, while both the
materialized and the current text of the session are not empty. -/
def Room.DeliversBlank {S : SyncRuntime} (room : Room S) : RoomLabel S → Prop
  | .deliver position =>
      (room.clients[position]?.bind fun client => client.outbox.head?).any Sent.blank = true ∧
        room.site.session.hasNonEmptyMaterializedContent = true ∧
        room.site.session.currentContent ≠ []
  | _ => False

instance Room.decidableDeliversBlank {S : SyncRuntime} (room : Room S) (label : RoomLabel S) :
    Decidable (room.DeliversBlank label) := by
  unfold Room.DeliversBlank
  split <;> infer_instance

namespace Session

variable {S : SyncRuntime}

/-- An update is unsafe only if a fresh document shows its text, the session has
both a materialized and a current text, and the two documents share no client. -/
theorem hasUnsafeIndependentUpdate_iff (session : Session S.toRuntime) (update : S.Update) :
    session.hasUnsafeIndependentUpdate update = true ↔
      session.hasNonEmptyMaterializedContent = true ∧ session.currentContent ≠ [] ∧
        S.text (S.applyUpdate S.emptyDoc update) ≠ [] ∧
        stateVectorsShareClient (S.stateVector session.doc)
          (S.stateVector (S.applyUpdate S.emptyDoc update)) = false := by
  unfold hasUnsafeIndependentUpdate
  by_cases shows : S.text (S.applyUpdate S.emptyDoc update) = [] <;>
    cases session.hasNonEmptyMaterializedContent <;>
    cases session.currentContent <;> simp [shows]

theorem not_unsafe_of_rooted {session : Session S.toRuntime} {update : S.Update}
    (rooted : ∀ struct ∈ S.updateStructs update, struct.rootless = false) :
    session.hasUnsafeIndependentUpdate update = false := by
  rw [Bool.eq_false_iff]
  intro refused
  obtain ⟨_, _, shows, _⟩ := (session.hasUnsafeIndependentUpdate_iff update).mp refused
  obtain ⟨struct, carried, rootless⟩ := S.rootless_of_text shows
  rw [rooted struct carried] at rootless
  cases rootless

/-- A transaction of a document that has structs leaves it some. -/
theorem Transacts.structs {doc next : S.Doc} (changed : Transacts S.toRuntime doc next)
    (held : S.structs doc ≠ []) : S.structs next ≠ [] := by
  cases changed with
  | none => exact held
  | update update => exact S.structs_applyUpdate doc update held
  | delta content => exact S.structs_applyDelta doc content held

end Session

/-- What holds of a synced client; `seeded` says that the session's document had
structs from the start. -/
structure SyncClient.Live {S : SyncRuntime} (seeded : Prop) (client : SyncClient S) : Prop where
  doc : seeded → S.structs client.doc ≠ []
  rooted : ∀ sent ∈ client.outbox, sent.blank = false →
    ∀ struct ∈ S.updateStructs sent.update, struct.rootless = false
  typed : seeded → ∀ sent ∈ client.outbox, sent.blank = false
  socket : client.socket ≠ .divergent

namespace SyncClient.Live

variable {S : SyncRuntime} {seeded : Prop} {client : SyncClient S}

/-- A client that joins has what the room is seeded with. -/
theorem joined {doc : S.Doc} (held : seeded → S.structs doc ≠ []) (id : Nat)
    (attribution : Option S.Attribution) :
    (SyncClient.joined id attribution doc : SyncClient S).Live seeded where
  doc known := S.structs_sync doc (held known)
  rooted _ sent := nomatch sent
  typed _ _ sent := nomatch sent
  socket := nofun

theorem type (live : client.Live seeded) (index length : Nat) (content : JsString) :
    (client.type index length content).Live seeded where
  doc known := S.structs_edit _ _ _ _ _ (live.doc known)
  rooted sent member notBlank := by
    rcases List.mem_append.mp member with old | new
    · exact live.rooted sent old notBlank
    · obtain rfl := List.mem_singleton.mp new
      intro struct carried
      refine S.rooted_edit _ _ _ _ _ struct ?_ carried
      intro empty
      simpa [empty] using notBlank
  typed known sent member := by
    rcases List.mem_append.mp member with old | new
    · exact live.typed known sent old
    · obtain rfl := List.mem_singleton.mp new
      simp [live.doc known]
  socket := live.socket

theorem send (live : client.Live seeded) (update : Option S.Update) :
    (client.send update).Live seeded := by
  unfold SyncClient.send
  split
  · exact ⟨live.doc, live.rooted, live.typed, live.socket⟩
  · exact live

theorem closeDeletedDocument (live : client.Live seeded) :
    client.closeDeletedDocument.Live seeded := by
  unfold SyncClient.closeDeletedDocument
  split
  · exact ⟨live.doc, live.rooted, live.typed, nofun⟩
  · exact live

theorem receive (live : client.Live seeded) (update : S.Update) (rest : List S.Update) :
    ({ client with doc := S.applyUpdate client.doc update, inbox := rest } :
      SyncClient S).Live seeded :=
  ⟨fun known => S.structs_applyUpdate _ update (live.doc known), live.rooted, live.typed,
    live.socket⟩

/-- The update sent first leaves the outbox. -/
theorem pop (live : client.Live seeded) {sent : Sent S} {rest : List (Sent S)}
    (waiting : client.outbox = sent :: rest) :
    ({ client with outbox := rest } : SyncClient S).Live seeded := by
  have later : ∀ other ∈ rest, other ∈ client.outbox := by
    intro other member
    rw [waiting]
    exact List.mem_cons_of_mem sent member
  exact ⟨live.doc, fun other member => live.rooted other (later other member),
    fun known other member => live.typed known other (later other member), live.socket⟩

end SyncClient.Live

/-- What holds of a room at every moment. -/
structure Room.Live {S : SyncRuntime} (seeded : Prop) (room : Room S) : Prop where
  doc : seeded → S.structs room.site.session.doc ≠ []
  clients : ∀ client ∈ room.clients, client.Live seeded

namespace Room.Live

variable {S : SyncRuntime} {seeded : Prop} {room : Room S}

theorem set (live : room.Live seeded) (position : Nat) {client : SyncClient S}
    (next : client.Live seeded) :
    ({ room with clients := room.clients.set position client } : Room S).Live seeded where
  doc := live.doc
  clients other member := by
    rcases List.mem_or_eq_of_mem_set member with old | rfl
    · exact live.clients other old
    · exact next

theorem follow (live : room.Live seeded) (origin : Option Nat) {site : Site S.toRuntime}
    (changed : Session.Transacts S.toRuntime room.site.session.doc site.session.doc) :
    (room.follow origin site).Live seeded where
  doc known := changed.structs (live.doc known)
  clients client member := by
    obtain ⟨sent, heard, rfl⟩ := List.mem_map.mp member
    obtain ⟨position, inside, rfl⟩ := List.mem_mapIdx.mp heard
    have before := live.clients _ (List.getElem_mem inside)
    have after : (if some position = origin then room.clients[position]
        else (room.clients[position]).send
          (S.change room.site.session.doc site.session.doc)).Live seeded := by
      split
      · exact before
      · exact before.send _
    split
    · exact after.closeDeletedDocument
    · exact after

/-- An update that is not refused leaves the room live. -/
theorem processSyncMessage (live : room.Live seeded) (position : Nat) {client : SyncClient S}
    (sender : client.Live seeded) {update : S.Update}
    (safe : room.site.session.hasUnsafeIndependentUpdate update = false) :
    (room.processSyncMessage position client update).Live seeded := by
  unfold Room.processSyncMessage
  split
  · simp only [Session.processUpdate, safe]
    exact (live.set position sender).follow (some position)
      (Session.transacts_applyUpdate room.site.session update client.attribution)
  · exact live.set position sender.closeDeletedDocument

/-- The update a client has sent first is accepted, unless the step is one that
delivers a blank one. -/
theorem accepts (live : room.Live seeded) {position : Nat} {client : SyncClient S}
    {sent : Sent S} {rest : List (Sent S)} (found : room.clients[position]? = some client)
    (waiting : client.outbox = sent :: rest)
    (allowed : ¬ seeded → ¬ room.DeliversBlank (.deliver position)) :
    room.site.session.hasUnsafeIndependentUpdate sent.update = false := by
  have sender := live.clients client (List.mem_of_getElem? found)
  have first : sent ∈ client.outbox := by
    rw [waiting]
    exact List.mem_cons_self
  cases blank : sent.blank with
  | false => exact Session.not_unsafe_of_rooted (sender.rooted sent first blank)
  | true =>
      have unseeded : ¬ seeded := by
        intro known
        rw [sender.typed known sent first] at blank
        cases blank
      rw [Bool.eq_false_iff]
      intro refused
      obtain ⟨materialized, current, _⟩ :=
        (Session.hasUnsafeIndependentUpdate_iff _ _).mp refused
      refine allowed unseeded ⟨?_, materialized, current⟩
      rw [found, Option.bind_some, waiting, List.head?_cons, Option.any_some]
      exact blank

theorem step {label : RoomLabel S} {next : Room S} (live : room.Live seeded)
    (allowed : ¬ seeded → ¬ room.DeliversBlank label)
    (stepped : (roomMachine S).step room label = some next) : next.Live seeded := by
  simp only [roomMachine] at stepped
  cases label with
  | join id attribution =>
      dsimp only at stepped
      split at stepped
      · obtain rfl := Option.some.inj stepped
        refine ⟨live.doc, ?_⟩
        intro client member
        rcases List.mem_append.mp member with old | new
        · exact live.clients client old
        · obtain rfl := List.mem_singleton.mp new
          exact .joined live.doc id attribution
      · cases stepped
  | edit position index length content =>
      obtain ⟨client, found, rfl⟩ := Option.map_eq_some_iff.mp stepped
      exact live.set position
        ((live.clients client (List.mem_of_getElem? found)).type index length content)
  | deliver position =>
      dsimp only at stepped
      split at stepped
      · cases stepped
      · rename_i client found
        split at stepped
        · rename_i sent rest _ waiting
          obtain rfl := Option.some.inj stepped
          have sender := live.clients client (List.mem_of_getElem? found)
          exact live.processSyncMessage position (sender.pop waiting)
            (live.accepts found waiting allowed)
        · cases stepped
  | receive position =>
      dsimp only at stepped
      split at stepped
      · cases stepped
      · rename_i client found
        split at stepped
        · rename_i update rest _
          obtain rfl := Option.some.inj stepped
          exact live.set position
            ((live.clients client (List.mem_of_getElem? found)).receive update rest)
        · cases stepped
  | session label =>
      dsimp only at stepped
      split at stepped
      · cases stepped
      · obtain ⟨site, moved, rfl⟩ := Option.map_eq_some_iff.mp stepped
        exact live.follow none (sessionMachine_transacts moved)

end Room.Live

/-- Live edits are accepted: no socket has been closed as divergent, the update a
client has sent first is safe unless it is delivered blank, and updates of
independent documents are refused without an effect. -/
structure AcceptsLiveEdits {S : SyncRuntime} (seeded : Prop) (room : Room S) : Prop where
  sockets : ∀ client ∈ room.clients, client.socket ≠ .divergent
  safe : ∀ position client sent rest, room.clients[position]? = some client →
    client.outbox = sent :: rest → (¬ seeded → ¬ room.DeliversBlank (.deliver position)) →
    room.site.session.hasUnsafeIndependentUpdate sent.update = false
  refuses : ∀ update attribution,
    room.site.session.hasNonEmptyMaterializedContent = true →
    room.site.session.currentContent ≠ [] →
    S.text (S.applyUpdate S.emptyDoc update) ≠ [] →
    (∀ entry ∈ S.stateVector room.site.session.doc,
      ∀ other ∈ S.stateVector (S.applyUpdate S.emptyDoc update), other.1 ≠ entry.1) →
    room.site.session.processUpdate update attribution = (room.site.session, .closed)

theorem Session.processUpdate_independent {S : SyncRuntime} {session : Session S.toRuntime}
    {update : S.Update} (attribution : Option S.Attribution)
    (materialized : session.hasNonEmptyMaterializedContent = true)
    (current : session.currentContent ≠ [])
    (shows : S.text (S.applyUpdate S.emptyDoc update) ≠ [])
    (apart : ∀ entry ∈ S.stateVector session.doc,
      ∀ other ∈ S.stateVector (S.applyUpdate S.emptyDoc update), other.1 ≠ entry.1) :
    session.processUpdate update attribution = (session, .closed) := by
  have disjoint : stateVectorsShareClient (S.stateVector session.doc)
      (S.stateVector (S.applyUpdate S.emptyDoc update)) = false := by
    simp only [stateVectorsShareClient, List.any_eq_false]
    intro entry held shared
    obtain ⟨other, incoming, same⟩ := List.any_eq_true.mp shared
    exact apart entry held other incoming (beq_iff_eq.mp same)
  rw [processUpdate,
    (session.hasUnsafeIndependentUpdate_iff update).mpr ⟨materialized, current, shows, disjoint⟩]
  rfl

/-- **Live edits are accepted.** Clients join a session, type, and exchange updates
with it in any order, while the session saves and reconciles. In every run in which,
unless the session's document had structs from the start, no insertion typed on a
document without structs is delivered while the session has a materialized and a
current text, no update of a client is refused; updates of independent documents
are. -/
theorem live_edits_accepted {S : SyncRuntime} {source target : Room S}
    {labels : List (RoomLabel S)} (initial : source.clients = [])
    (run : (roomMachine S).Run
      (fun room label => S.structs source.site.session.doc = [] → ¬ room.DeliversBlank label)
      source labels target) :
    AcceptsLiveEdits (S.structs source.site.session.doc ≠ []) target := by
  have start : source.Live (S.structs source.site.session.doc ≠ []) := by
    refine ⟨id, ?_⟩
    rw [initial]
    exact nofun
  have keep : ∀ (room : Room S) label next,
      (S.structs source.site.session.doc = [] → ¬ room.DeliversBlank label) →
      (roomMachine S).step room label = some next →
      room.Live (S.structs source.site.session.doc ≠ []) →
      next.Live (S.structs source.site.session.doc ≠ []) := by
    intro room label next allowed stepped live
    exact live.step (fun unseeded => allowed (not_not.mp unseeded)) stepped
  have live := run.invariant keep start
  refine ⟨fun client member => (live.clients client member).socket, ?_, ?_⟩
  · intro position client sent rest found waiting allowed
    exact live.accepts found waiting allowed
  · intro update attribution materialized current shows apart
    exact Session.processUpdate_independent attribution materialized current shows apart

/-- A session of the note `n.md`, just opened on a content, without clients. -/
def LoggedDoc.openedRoom (content : JsString) : Room replicaSync where
  site :=
    { session := ((Session.fresh replicaSync.toRuntime [110] [110] none none).hydrate content
        none).finishOpen
      disk :=
        { files := fun path => if path = [110] then some content else none
          sidecars := fun _ => none } }
  clients := []

/-- Two clients sync with an empty note and each type a letter. The first letter is
saved before the second arrives, and the second client is refused. -/
theorem concurrent_first_edit_refused :
    ∃ (labels : List (RoomLabel replicaSync)) (target : Room replicaSync),
      (LoggedDoc.openedRoom []).clients = [] ∧
      (roomMachine replicaSync).Run (fun _ _ => True) (LoggedDoc.openedRoom []) labels target ∧
      ∃ client ∈ target.clients, client.socket = .divergent := by
  have evaluated : ((roomMachine replicaSync).evaluate (fun _ _ => True)
      (LoggedDoc.openedRoom []) [.join 1 none, .join 2 none, .edit 0 0 0 [97], .edit 1 0 0 [98],
        .deliver 0, .session (.persist .ok), .session (.persist .ok), .session (.persist .ok),
        .session (.persist .ok), .session (.persist .ok), .deliver 1]).map
      (fun room => room.clients.map SyncClient.socket) = some [.connected, .divergent] := by
    decide +kernel
  obtain ⟨target, run, sockets⟩ := Machine.evaluate_view evaluated
  have refused : SocketState.divergent ∈ target.clients.map SyncClient.socket := by
    rw [sockets]
    decide
  obtain ⟨client, member, socket⟩ := List.mem_map.mp refused
  exact ⟨_, target, rfl, run, client, member, socket⟩

/-- When the first letter has reached the second client before it types, its own
letter is accepted, also after a save. -/
theorem live_edits_accepted_received :
    ∃ target, (roomMachine replicaSync).Run
        (fun room label => replicaSync.structs (LoggedDoc.openedRoom []).site.session.doc = [] →
          ¬ room.DeliversBlank label)
        (LoggedDoc.openedRoom []) [.join 1 none, .join 2 none, .edit 0 0 0 [97], .deliver 0,
          .session (.persist .ok), .session (.persist .ok), .session (.persist .ok),
          .session (.persist .ok), .session (.persist .ok), .receive 1, .edit 1 1 0 [98],
          .deliver 1] target ∧
      target.site.session.currentContent = [97, 98] ∧
      AcceptsLiveEdits (replicaSync.structs (LoggedDoc.openedRoom []).site.session.doc ≠ [])
        target := by
  have evaluated : ((roomMachine replicaSync).evaluate
      (fun room label => replicaSync.structs (LoggedDoc.openedRoom []).site.session.doc = [] →
        ¬ room.DeliversBlank label)
      (LoggedDoc.openedRoom []) [.join 1 none, .join 2 none, .edit 0 0 0 [97], .deliver 0,
        .session (.persist .ok), .session (.persist .ok), .session (.persist .ok),
        .session (.persist .ok), .session (.persist .ok), .receive 1, .edit 1 1 0 [98],
        .deliver 1]).map
      (fun room => room.site.session.currentContent) = some [97, 98] := by
    decide +kernel
  obtain ⟨target, run, text⟩ := Machine.evaluate_view evaluated
  exact ⟨target, run, text, live_edits_accepted rfl run⟩

end Kb1Daemon
