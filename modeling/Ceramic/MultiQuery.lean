import Ceramic.ModelInterfaces
import Ceramic.Library.InsertionMap
import Ceramic.Library.Worklist

/-! Queries for a stream and for those that are linked from it along paths of fields. All streams of a query
are loaded concurrently, as far as the ones before them on a path are. -/
namespace Ceramic.MultiQueries

/-- What every object has under these names is truthy and is not what was stored there. -/
def inheritedNames : List String :=
  ["__proto__", "constructor", "hasOwnProperty", "isPrototypeOf", "propertyIsEnumerable", "toLocaleString", "toString",
    "valueOf", "__defineGetter__", "__defineSetter__", "__lookupGetter__", "__lookupSetter__"]

inductive TrieNode where
  | mk (children : List (String × TrieNode))

namespace TrieNode

def children : TrieNode → List (String × TrieNode)
  | ⟨children⟩ => children

mutual
def size : TrieNode → Nat
  | ⟨children⟩ => sizes children + 1

def sizes : List (String × TrieNode) → Nat
  | [] => 0
  | (_, child) :: rest => child.size + sizes rest
end

/-- `children[key] = child`. -/
def setChild (key : String) (child : TrieNode) : List (String × TrieNode) → List (String × TrieNode)
  | [] => [(key, child)]
  | (other, old) :: rest => if other = key then (key, child) :: rest else (other, old) :: setChild key child rest

/-- An inherited value is taken for a node, which has no children. -/
def add : List String → TrieNode → Except JsError TrieNode
  | [], node => .ok node
  | key :: rest, ⟨children⟩ =>
    match children.lookup key with
    | some child => do return ⟨setChild key (← add rest child) children⟩
    | none =>
      if key ∈ inheritedNames then
        match rest with
        | [] => .ok ⟨children⟩
        | next :: _ => .error ⟨"Cannot read properties of undefined (reading '" ++ next ++ "')"⟩
      else do return ⟨setChild key (← add rest ⟨[]⟩) children⟩

end TrieNode

namespace PathTrie

def segments (path : String) : List String :=
  let withoutSlash := if path.toList.head? = some '/' then path.toList.tail else path.toList
  (withoutSlash.splitOn '/').map String.ofList

def add (root : TrieNode) (path : String) : Except JsError TrieNode := root.add (segments path)

end PathTrie

/-- `streamId` of a query. -/
inductive QueryTarget where
  | ref (ref : StreamRef)
  | text (text : String)

/-- A genesis commit of a query: whether it is signed, and the id of the stream that is made from it. -/
structure GivenGenesis where
  signed : Bool
  createStreamFromGenesis : Except JsError StreamID

structure MultiQuery where
  streamId : QueryTarget
  genesis : Option GivenGenesis := none
  paths : List String := []
  atTime : Option Nat := none

/-- The streams that a node can load, each at the time of its tip, of a commit or of a date; a load that takes
too long fails. -/
structure Loads where
  parseCID : String → Option Cid
  load : StreamRef → Option Nat → Except JsError StreamState
  identifies : ∀ ref atTime state, load ref atTime = .ok state → StreamUtils.streamIdFromState state = ref.baseID

/-- A stream as it is handed out. -/
structure Stream where
  state : StreamState
  isReadOnly : Bool

namespace Stream

def id (stream : Stream) : StreamID := StreamUtils.streamIdFromState stream.state

def tip (stream : Stream) : Cid := StreamUtils.tipFromState stream.state

/-- `next?.content ?? content`. -/
def content (stream : Stream) : JsValue :=
  (((stream.state.next.bind StreamNext.content).filter fun value => !value.isNullish).getD stream.state.content)

end Stream

mutual
/-- The text of a value where one is expected, as far as it may be that of an identifier. -/
def asText : JsValue → String
  | .str s => s
  | .arr items => ",".intercalate (asTexts items)
  | .undefined | .null => ""
  | .bool _ | .num _ | .bytes _ | .cid _ | .streamID _ | .obj _ => "[object Object]"

def asTexts : List JsValue → List String
  | [] => []
  | item :: rest => asText item :: asTexts rest
end

/-- `content[key]`; what a value inherits is no identifier. -/
def field (content : JsValue) (key : String) : JsValue :=
  match content with
  | .obj fields => JsObject.get fields key
  | .arr items => ((items.zipIdx.find? fun item => toString item.2 = key).map Prod.fst).getD .undefined
  | _ => .undefined

abbrev Index := InsertionMap String Stream

/-- A node of the trie and the stream that is loaded there. -/
structure Visit where
  node : TrieNode
  streamId : StreamRef

inductive WalkEvent where
  | entry (key : String) (stream : Stream)
  | throws (e : JsError)

def normalTime (atTime : Option Nat) : Option Nat := atTime.filter (· ≠ 0)

section

variable (loads : Loads)

def StreamRef.from : QueryTarget → Except JsError StreamRef
  | .ref ref => .ok ref
  | .text text => StreamRef.fromString loads.parseCID text

def loadStream (ref : StreamRef) (atTime : Option Nat) : Except JsError Stream := do
  let state ← loads.load ref (normalTime atTime)
  let isCommit := match ref with
    | .streamID _ => false
    | .commitID _ => true
  return ⟨state, isCommit || (normalTime atTime).isSome⟩

def tryStreamId (value : JsValue) : Option StreamID := (StreamID.fromString loads.parseCID (asText value)).toOption

/-- The stream that a field of the content links to. -/
def linkOf (content : JsValue) (key : String) : Option StreamID :=
  let value := field content key
  if value.truthy then tryStreamId loads value else none

def nextVisit (content : JsValue) (child : String × TrieNode) : Option Visit :=
  (linkOf loads content child.1).map fun target => ⟨child.2, .streamID target⟩

/-- Fields are read only where the trie has children; those of null are read in vain. -/
def nextVisits (content : JsValue) (children : List (String × TrieNode)) : Except JsError (List Visit) :=
  match content.isNullish, children with
  | true, (key, _) :: _ =>
    .error ⟨"Cannot read properties of " ++ (if content = .null then "null" else "undefined") ++ " (reading '" ++ key ++ "')"⟩
  | _, _ => .ok (children.filterMap (nextVisit loads content))

def indexKey (atTime : Option Nat) (streamId : StreamRef) (stream : Stream) : String :=
  if (normalTime atTime).isSome then
    (CommitID.make streamId.baseID.type streamId.baseID.cid (some stream.tip)).toString
  else streamId.toString

/-- A walk up to the loads that follow. -/
def walkNext (atTime : Option Nat) (visit : Visit) : List WalkEvent × List Visit :=
  match loadStream loads visit.streamId atTime with
  | .error _ => ([], [])
  | .ok stream =>
    let entry := .entry (indexKey atTime visit.streamId stream) stream
    match nextVisits loads stream.content visit.node.children with
    | .error e => ([entry, .throws e], [])
    | .ok visits => ([entry], visits)

def _ensureGenesis (genesis : GivenGenesis) (streamRef : StreamRef) : Except JsError Unit := do
  if genesis.signed then throw ⟨"Given genesis commit is not deterministic"⟩
  let id ← genesis.createStreamFromGenesis
  if streamRef ≠ .streamID id then
    throw ⟨"StreamID " ++ id.toString ++ " generated does not match expected StreamID " ++ streamRef.toString ++
      " determined from genesis content in multiquery request"⟩

def WalkEvent.error? : WalkEvent → Option JsError
  | .entry _ _ => none
  | .throws e => some e

def store (index : Index) : WalkEvent → Index
  | .entry key stream => index.set key stream
  | .throws _ => index

/-- The index that a walk fills, if it never throws. -/
def indexOf (events : List WalkEvent) : Except JsError Index :=
  match events.findSome? WalkEvent.error? with
  | some e => .error e
  | none => .ok (events.foldl store (.empty _ _))

def ensureGiven (genesis : Option GivenGenesis) (streamRef : StreamRef) : Except JsError Unit :=
  match genesis with
  | some genesis => _ensureGenesis genesis streamRef
  | none => .ok ()

/-- `order` tells in which order the loads end. -/
def _loadLinkedStreams (query : MultiQuery) (order : List Nat) : Except JsError Index := do
  let id ← StreamRef.from loads query.streamId
  let root ← query.paths.foldlM PathTrie.add ⟨[]⟩
  ensureGiven query.genesis id
  indexOf (Worklist.drain (walkNext loads query.atTime) root.size order [⟨root, id⟩])

/-- `{ ...acc, ...res }`. -/
def spread (acc res : Index) : Index := res.entries.foldl (fun acc entry => acc.set entry.1 entry.2) acc

/-- What a query gives in the end: nothing if it throws. -/
def queryResult (query : MultiQuery × List Nat) : Index :=
  (_loadLinkedStreams loads query.1 query.2).toOption.getD (.empty _ _)

/-- A sync loads the stream once more. -/
def sync (stream : Stream) : Except JsError Unit :=
  if stream.isReadOnly then .ok () else (loadStream loads (.streamID stream.id) none).map fun _ => ()

/-- Each query comes with the order of its loads. -/
def multiQuery (queries : List (MultiQuery × List Nat)) : Except JsError Index := do
  let results := (queries.map (queryResult loads)).foldl spread (.empty _ _)
  results.values.forM (sync loads)
  return results

end

namespace TrieNode

/-- The node at the end of some fields. -/
def At : TrieNode → List String → TrieNode → Prop
  | node, [], found => node = found
  | node, key :: rest, found => ∃ child, (key, child) ∈ node.children ∧ child.At rest found

def Has (node : TrieNode) (fields : List String) : Prop := ∃ found, node.At fields found

theorem has_cons {node : TrieNode} {key : String} {rest : List String} :
    node.Has (key :: rest) ↔ ∃ child, (key, child) ∈ node.children ∧ child.Has rest := by
  constructor
  · rintro ⟨found, child, member, isAt⟩
    exact ⟨child, member, found, isAt⟩
  · rintro ⟨child, member, found, isAt⟩
    exact ⟨found, child, member, isAt⟩

theorem at_append {node found : TrieNode} {fields : List String} {key : String} :
    node.At (fields ++ [key]) found ↔ ∃ middle, node.At fields middle ∧ (key, found) ∈ middle.children := by
  induction fields generalizing node with
  | nil => simp [At]
  | cons first rest ih =>
    constructor
    · rintro ⟨child, member, isAt⟩
      obtain ⟨middle, before, last⟩ := ih.mp isAt
      exact ⟨middle, ⟨child, member, before⟩, last⟩
    · rintro ⟨middle, ⟨child, member, before⟩, last⟩
      exact ⟨child, member, ih.mpr ⟨middle, before, last⟩⟩

@[simp] theorem has_nil (node : TrieNode) : node.Has [] := ⟨node, rfl⟩

theorem mem_of_lookup {key : String} {child : TrieNode} {children : List (String × TrieNode)}
    (found : children.lookup key = some child) : (key, child) ∈ children := by
  induction children with
  | nil => cases found
  | cons entry rest ih =>
    rw [List.lookup_cons] at found
    split at found
    next same => exact List.mem_cons.mpr (.inl (Prod.ext (by simpa using same) (Option.some.inj found).symm))
    next => exact List.mem_cons_of_mem _ (ih found)

theorem exists_mem_entry {name key : String} {child : TrieNode} {children : List (String × TrieNode)}
    {rest : List String} :
    (∃ found, (name, found) ∈ (key, child) :: children ∧ found.Has rest) ↔
      (name = key ∧ child.Has rest) ∨ ∃ found, (name, found) ∈ children ∧ found.Has rest := by
  simp only [List.mem_cons, Prod.mk.injEq, or_and_right, exists_or, and_assoc, exists_and_left, exists_eq_left]

/-- The child has the paths of the one that it takes the place of. -/
theorem mem_setChild {key name : String} {child : TrieNode} {children : List (String × TrieNode)} {rest : List String}
    (keeps : ∀ old, children.lookup key = some old → old.Has rest → child.Has rest) :
    (∃ found, (name, found) ∈ setChild key child children ∧ found.Has rest) ↔
      (∃ found, (name, found) ∈ children ∧ found.Has rest) ∨ name = key ∧ child.Has rest := by
  induction children with
  | nil => simp [setChild]
  | cons entry children ih =>
    obtain ⟨other, old⟩ := entry
    unfold setChild
    split
    next same =>
      subst same
      rw [exists_mem_entry, exists_mem_entry]
      constructor
      · rintro (here | behind)
        · exact .inr here
        · exact .inl (.inr behind)
      · rintro ((⟨same, has⟩ | behind) | here)
        · exact .inl ⟨same, keeps old (by simp) has⟩
        · exact .inr behind
        · exact .inl here
    next apart =>
      have apart' : (key == other) = false := by simpa using Ne.symm apart
      rw [exists_mem_entry, exists_mem_entry,
        ih fun found isFound => keeps found (by rw [List.lookup_cons, apart']; exact isFound), or_assoc]

/-- None of the names is one that objects inherit. -/
def Plain (fields : List String) : Prop := ∀ name ∈ fields, name ∉ inheritedNames

theorem plain_cons {name : String} {fields : List String} :
    Plain (name :: fields) ↔ name ∉ inheritedNames ∧ Plain fields := List.forall_mem_cons

/-- `start` is the child that was there, or a new one. -/
theorem has_setChild {key : String} {rest fields : List String} {children : List (String × TrieNode)}
    {start child : TrieNode} (grown : ∀ fields, child.Has fields ↔ start.Has fields ∨ fields <+: rest ∧ Plain fields)
    (plain : key ∉ inheritedNames) (isOld : ∀ old, children.lookup key = some old → old = start)
    (inside : ∀ fields, start.Has fields → fields = [] ∨ Has ⟨children⟩ (key :: fields)) :
    Has ⟨setChild key child children⟩ fields ↔ Has ⟨children⟩ fields ∨ fields <+: key :: rest ∧ Plain fields := by
  cases fields with
  | nil => simp
  | cons name fields =>
    rw [has_cons, has_cons]
    refine (mem_setChild fun old found has => (grown fields).mpr (.inl (isOld old found ▸ has))).trans ?_
    rw [grown fields, List.cons_prefix_cons, and_assoc, plain_cons]
    constructor
    · rintro (has | ⟨rfl, has | ⟨isPrefix, isPlain⟩⟩)
      · exact .inl has
      · rcases inside fields has with rfl | before
        · exact .inr ⟨rfl, List.nil_prefix, plain, nofun⟩
        · exact .inl (has_cons.mp before)
      · exact .inr ⟨rfl, isPrefix, plain, isPlain⟩
    · rintro (has | ⟨rfl, isPrefix, _, isPlain⟩)
      · exact .inl has
      · exact .inr ⟨rfl, .inr ⟨isPrefix, isPlain⟩⟩

theorem has_empty {fields : List String} : Has ⟨[]⟩ fields ↔ fields = [] := by
  cases fields with
  | nil => simp
  | cons name rest => simp [has_cons, children]

/-- What `add` makes of a node whose names are all plain. -/
theorem has_add {path : List String} {node node' : TrieNode} (plain : ∀ fields, node.Has fields → Plain fields)
    (added : node.add path = .ok node') (fields : List String) :
    node'.Has fields ↔ node.Has fields ∨ fields <+: path ∧ Plain fields := by
  induction path generalizing node node' fields with
  | nil =>
    obtain rfl := Except.ok.inj added
    rw [List.prefix_nil]
    exact ⟨.inl, fun has => has.elim id fun ⟨isNil, _⟩ => isNil ▸ has_nil node⟩
  | cons key rest ih =>
    obtain ⟨children⟩ := node
    unfold add at added
    split at added
    next child found =>
      obtain ⟨child', grown, made⟩ := bind_eq_ok.mp added
      obtain rfl := Except.ok.inj made
      have member : (key, child) ∈ children := mem_of_lookup found
      have isPlain : ∀ fields, child.Has fields → Plain (key :: fields) := fun fields has =>
        plain _ (has_cons.mpr ⟨child, member, has⟩)
      refine has_setChild (ih (fun fields has => (plain_cons.mp (isPlain fields has)).2) grown)
        (plain_cons.mp (isPlain [] (has_nil child))).1 ?_ ?_
      · intro old isOld
        exact Option.some.inj (isOld.symm.trans found)
      · intro fields has
        exact .inr (has_cons.mpr ⟨child, member, has⟩)
    next absent =>
      split at added
      next inherited =>
        split at added
        · obtain rfl := Except.ok.inj added
          refine ⟨.inl, fun has => has.elim id ?_⟩
          rintro ⟨isPrefix, isPlain⟩
          cases fields with
          | nil => exact has_nil _
          | cons name fields =>
            obtain ⟨rfl, _⟩ := List.cons_prefix_cons.mp isPrefix
            exact absurd inherited (plain_cons.mp isPlain).1
        · cases added
      next notInherited =>
        obtain ⟨child', grown, made⟩ := bind_eq_ok.mp added
        obtain rfl := Except.ok.inj made
        refine has_setChild (ih ?_ grown) notInherited ?_ ?_
        · intro fields has
          rw [has_empty.mp has]
          exact nofun
        · intro old isOld
          cases absent.symm.trans isOld
        · intro fields has
          exact .inl (has_empty.mp has)

theorem plain_dropLast_cons {key : String} {rest : List String} (plain : key ∉ inheritedNames) :
    Plain (key :: rest).dropLast ↔ Plain rest.dropLast := by
  cases rest with
  | nil => simp [Plain]
  | cons next rest => rw [List.dropLast_cons_cons, plain_cons, and_iff_right plain]

/-- A path is refused for an inherited name before its last. -/
theorem add_eq_ok {path : List String} {node : TrieNode} (plain : ∀ fields, node.Has fields → Plain fields) :
    (∃ node', node.add path = .ok node') ↔ Plain path.dropLast := by
  induction path generalizing node with
  | nil => exact ⟨fun _ => nofun, fun _ => ⟨node, rfl⟩⟩
  | cons key rest ih =>
    obtain ⟨children⟩ := node
    have grows {start : TrieNode} (isPlain : ∀ fields, start.Has fields → Plain fields) (notInherited : key ∉ inheritedNames) :
        (∃ node', (do return (⟨setChild key (← start.add rest) children⟩ : TrieNode)) = Except.ok (ε := JsError) node') ↔
          Plain (key :: rest).dropLast := by
      rw [plain_dropLast_cons notInherited, ← ih isPlain]
      constructor
      · rintro ⟨_, added⟩
        obtain ⟨child, grown, _⟩ := bind_eq_ok.mp added
        exact ⟨child, grown⟩
      · rintro ⟨child, grown⟩
        exact ⟨_, bind_eq_ok.mpr ⟨child, grown, rfl⟩⟩
    unfold add
    split
    next child found =>
      have isPlain : ∀ fields, child.Has fields → Plain (key :: fields) := fun fields has =>
        plain _ (has_cons.mpr ⟨child, mem_of_lookup found, has⟩)
      exact grows (fun fields has => (plain_cons.mp (isPlain fields has)).2) (plain_cons.mp (isPlain [] (has_nil child))).1
    next =>
      split
      next inherited =>
        split
        · exact ⟨fun _ => nofun, fun _ => ⟨_, rfl⟩⟩
        · refine ⟨nofun, fun isPlain => ?_⟩
          exact absurd inherited (plain_cons.mp isPlain).1
      next notInherited =>
        refine grows ?_ notInherited
        intro fields has
        rw [has_empty.mp has]
        exact nofun

end TrieNode

namespace PathTrie

open TrieNode

/-- The trie of some paths has their prefixes, up to the first inherited name. -/
theorem has_foldlM {paths : List String} {root root' : TrieNode} (plain : ∀ fields, root.Has fields → Plain fields)
    (built : paths.foldlM PathTrie.add root = .ok root') (fields : List String) :
    root'.Has fields ↔ root.Has fields ∨ ∃ path ∈ paths, fields <+: segments path ∧ Plain fields := by
  induction paths generalizing root with
  | nil =>
    obtain rfl := Except.ok.inj built
    simp
  | cons path paths ih =>
    rw [List.foldlM_cons] at built
    obtain ⟨next, added, rest⟩ := bind_eq_ok.mp built
    have grown := has_add plain added
    have nextPlain : ∀ fields, next.Has fields → Plain fields := fun fields has =>
      ((grown fields).mp has).elim (plain fields) And.right
    rw [ih nextPlain rest, grown fields, or_assoc]
    simp

theorem foldlM_eq_ok {paths : List String} {root : TrieNode} (plain : ∀ fields, root.Has fields → Plain fields) :
    (∃ root', paths.foldlM PathTrie.add root = .ok root') ↔ ∀ path ∈ paths, Plain (segments path).dropLast := by
  induction paths generalizing root with
  | nil => exact ⟨fun _ => nofun, fun _ => ⟨root, rfl⟩⟩
  | cons path paths ih =>
    rw [List.forall_mem_cons, ← add_eq_ok plain, List.foldlM_cons]
    have nextPlain {next : TrieNode} (added : root.add (segments path) = .ok next) :
        ∀ fields, next.Has fields → Plain fields := fun fields has =>
      ((has_add plain added fields).mp has).elim (plain fields) And.right
    constructor
    · rintro ⟨root', built⟩
      obtain ⟨next, added, rest⟩ := bind_eq_ok.mp built
      exact ⟨⟨next, added⟩, (ih (nextPlain added)).mp ⟨root', rest⟩⟩
    · rintro ⟨⟨next, added⟩, rest⟩
      obtain ⟨root', built⟩ := (ih (nextPlain added)).mpr rest
      exact ⟨root', bind_eq_ok.mpr ⟨next, added, built⟩⟩

end PathTrie

section

variable (loads : Loads)

/-- The fields lead from one stream to the other through streams that are loaded. -/
inductive Linked (atTime : Option Nat) : StreamRef → List String → StreamRef → Prop where
  | here (ref : StreamRef) : Linked atTime ref [] ref
  | through {ref last : StreamRef} {stream : Stream} {key : String} {rest : List String} {target : StreamID} :
      loadStream loads ref atTime = .ok stream → linkOf loads stream.content key = some target →
      Linked atTime (.streamID target) rest last → Linked atTime ref (key :: rest) last

/-- The root of a query, where the query has a genesis the one of its stream. -/
structure Opens (query : MultiQuery) (id : StreamRef) : Prop where
  root : StreamRef.from loads query.streamId = .ok id
  genesis : ensureGiven query.genesis id = .ok ()

/-- A stream that is loaded for a query after some fields, and its key. -/
def Loaded (query : MultiQuery) (fields : List String) (key : String) : Prop :=
  ∃ id ref stream, Opens loads query id ∧ Linked loads query.atTime id fields ref ∧
    loadStream loads ref query.atTime = .ok stream ∧ key = indexKey query.atTime ref stream

/-- The root or a stream that is reached from it along a prefix of one of the paths. -/
def Entry (query : MultiQuery) (key : String) : Prop :=
  ∃ fields, (fields = [] ∨ ∃ path ∈ query.paths, fields <+: PathTrie.segments path) ∧ Loaded loads query fields key

end

section

variable {loads : Loads} {atTime : Option Nat}

theorem linkOf_nullish {content : JsValue} (nullish : content.isNullish = true) (key : String) :
    linkOf loads content key = none := by
  cases content with
  | undefined => rfl
  | null => rfl
  | _ => cases nullish

theorem nextVisits_eq (content : JsValue) (children : List (String × TrieNode)) :
    ((content.isNullish = false ∨ children = []) ∧
      nextVisits loads content children = .ok (children.filterMap (nextVisit loads content))) ∨
      content.isNullish = true ∧ children ≠ [] ∧ ∃ e, nextVisits loads content children = .error e := by
  cases children with
  | nil => exact .inl ⟨.inr rfl, by unfold nextVisits; split <;> trivial⟩
  | cons first rest =>
    cases nullish : content.isNullish with
    | true => exact .inr ⟨rfl, nofun, _, by simp only [nextVisits, nullish]; rfl⟩
    | false => exact .inl ⟨.inl rfl, by simp only [nextVisits, nullish]⟩

theorem spawns_iff {visit next : Visit} : Worklist.Spawns (walkNext loads atTime) visit next ↔
    ∃ stream key target, loadStream loads visit.streamId atTime = .ok stream ∧
      (key, next.node) ∈ visit.node.children ∧ linkOf loads stream.content key = some target ∧
      next.streamId = .streamID target := by
  unfold Worklist.Spawns walkNext
  split
  next failed => simp [failed]
  next stream loaded =>
    dsimp only
    rcases @nextVisits_eq loads stream.content visit.node.children with ⟨_, visits⟩ | ⟨nullish, _, e, throws⟩
    · rw [visits]
      dsimp only
      rw [List.mem_filterMap]
      constructor
      · rintro ⟨⟨key, child⟩, member, linked⟩
        obtain ⟨target, isLink, rfl⟩ := Option.map_eq_some_iff.mp linked
        exact ⟨stream, key, target, loaded, member, isLink, rfl⟩
      · rintro ⟨_, key, target, loaded', member, isLink, isTarget⟩
        obtain rfl := Except.ok.inj (loaded.symm.trans loaded')
        obtain ⟨child, _⟩ := next
        obtain rfl := isTarget
        exact ⟨(key, child), member, by rw [nextVisit, isLink]; rfl⟩
    · rw [throws]
      refine ⟨nofun, ?_⟩
      rintro ⟨_, key, target, loaded', _, isLink, _⟩
      obtain rfl := Except.ok.inj (loaded.symm.trans loaded')
      rw [linkOf_nullish nullish] at isLink
      cases isLink

theorem comes_iff {node node' : TrieNode} {ref ref' : StreamRef} :
    Relation.ReflTransGen (Worklist.Spawns (walkNext loads atTime)) ⟨node, ref⟩ ⟨node', ref'⟩ ↔
      ∃ fields, node.At fields node' ∧ Linked loads atTime ref fields ref' := by
  constructor
  · intro comes
    generalize start : Visit.mk node ref = visit at comes
    generalize stop : Visit.mk node' ref' = last at comes
    induction comes using Relation.ReflTransGen.head_induction_on generalizing node ref with
    | refl =>
      obtain ⟨rfl, rfl⟩ := Visit.mk.inj (start.trans stop.symm)
      exact ⟨[], rfl, .here _⟩
    | head spawned _ ih =>
      subst start
      obtain ⟨stream, key, target, loaded, member, isLink, isTarget⟩ := spawns_iff.mp spawned
      obtain ⟨fields, isAt, linked⟩ := ih rfl
      rw [isTarget] at linked
      exact ⟨key :: fields, ⟨_, member, isAt⟩, .through loaded isLink linked⟩
  · rintro ⟨fields, isAt, linked⟩
    induction linked generalizing node with
    | here ref =>
      obtain rfl : node = node' := isAt
      exact .refl
    | through loaded isLink _ ih =>
      obtain ⟨child, member, isAt⟩ := isAt
      exact .head (spawns_iff.mpr ⟨_, _, _, loaded, member, isLink, rfl⟩) (ih isAt)

theorem mem_walkNext {visit : Visit} {event : WalkEvent} : event ∈ (walkNext loads atTime visit).1 ↔
    ∃ stream, loadStream loads visit.streamId atTime = .ok stream ∧
      (event = .entry (indexKey atTime visit.streamId stream) stream ∨
        ∃ e, event = .throws e ∧ nextVisits loads stream.content visit.node.children = .error e) := by
  unfold walkNext
  split
  next failed => simp [failed]
  next stream loaded =>
    dsimp only
    split
    next e throws => simp [loaded, throws]
    next visits next => simp [loaded, next]

theorem leaves_entry {root : TrieNode} {id : StreamRef} {key : String} {stream : Stream} :
    Worklist.Leaves (walkNext loads atTime) ⟨root, id⟩ (.entry key stream) ↔
      ∃ fields ref, root.Has fields ∧ Linked loads atTime id fields ref ∧
        loadStream loads ref atTime = .ok stream ∧ key = indexKey atTime ref stream := by
  constructor
  · rintro ⟨⟨node, ref⟩, comes, member⟩
    obtain ⟨fields, isAt, linked⟩ := comes_iff.mp comes
    obtain ⟨_, loaded, isEntry | ⟨e, isThrow, _⟩⟩ := mem_walkNext.mp member
    · obtain ⟨rfl, rfl⟩ := WalkEvent.entry.inj isEntry
      exact ⟨fields, ref, ⟨node, isAt⟩, linked, loaded, rfl⟩
    · cases isThrow
  · rintro ⟨fields, ref, ⟨node, isAt⟩, linked, loaded, rfl⟩
    exact ⟨⟨node, ref⟩, comes_iff.mpr ⟨fields, isAt, linked⟩, mem_walkNext.mpr ⟨stream, loaded, .inl rfl⟩⟩

/-- A walk throws at a stream with null content that is not the last on a path. -/
theorem leaves_throws {root : TrieNode} {id : StreamRef} :
    (∃ e, Worklist.Leaves (walkNext loads atTime) ⟨root, id⟩ (.throws e)) ↔
      ∃ fields name ref stream, root.Has (fields ++ [name]) ∧ Linked loads atTime id fields ref ∧
        loadStream loads ref atTime = .ok stream ∧ stream.content.isNullish = true := by
  constructor
  · rintro ⟨e, ⟨node, ref⟩, comes, member⟩
    obtain ⟨fields, isAt, linked⟩ := comes_iff.mp comes
    obtain ⟨stream, loaded, isEntry | ⟨_, _, throws⟩⟩ := mem_walkNext.mp member
    · cases isEntry
    · rcases @nextVisits_eq loads stream.content node.children with ⟨_, visits⟩ | ⟨nullish, nonempty, _⟩
      · cases visits.symm.trans throws
      · obtain ⟨⟨name, child⟩, isChild⟩ := List.exists_mem_of_ne_nil _ nonempty
        exact ⟨fields, name, ref, stream, ⟨child, TrieNode.at_append.mpr ⟨node, isAt, isChild⟩⟩, linked, loaded, nullish⟩
  · rintro ⟨fields, name, ref, stream, ⟨child, isAt⟩, linked, loaded, nullish⟩
    obtain ⟨node, isAt, isChild⟩ := TrieNode.at_append.mp isAt
    rcases @nextVisits_eq loads stream.content node.children with ⟨passes, _⟩ | ⟨_, _, e, throws⟩
    · rcases passes with present | isLeaf
      · cases present.symm.trans nullish
      · rw [isLeaf] at isChild
        cases isChild
    · exact ⟨e, ⟨node, ref⟩, comes_iff.mpr ⟨fields, isAt, linked⟩,
        mem_walkNext.mpr ⟨stream, loaded, .inr ⟨e, rfl, throws⟩⟩⟩

theorem size_filterMap (content : JsValue) (children : List (String × TrieNode)) :
    ((children.filterMap (nextVisit loads content)).map fun next => next.node.size).sum ≤ TrieNode.sizes children := by
  induction children with
  | nil => exact Nat.zero_le _
  | cons entry rest ih =>
    rw [TrieNode.sizes]
    cases linked : linkOf loads content entry.1 with
    | none =>
      rw [List.filterMap_cons_none (by rw [nextVisit, linked]; rfl)]
      exact Nat.le_trans ih (Nat.le_add_left _ _)
    | some target =>
      rw [List.filterMap_cons_some (by rw [nextVisit, linked]; rfl), List.map_cons, List.sum_cons]
      exact Nat.add_le_add_left ih _

/-- The visits that a visit leaves have disjoint parts of its trie. -/
theorem size_spawned (visit : Visit) :
    ((walkNext loads atTime visit).2.map fun next => next.node.size).sum < visit.node.size := by
  obtain ⟨⟨children⟩, ref⟩ := visit
  have positive : TrieNode.size ⟨children⟩ = TrieNode.sizes children + 1 := rfl
  unfold walkNext
  split
  next => exact Nat.succ_pos _
  next stream _ =>
    rcases @nextVisits_eq loads stream.content children with ⟨_, visits⟩ | ⟨_, _, e, throws⟩
    · dsimp only [TrieNode.children]
      rw [visits]
      exact Nat.lt_succ_of_le (size_filterMap stream.content children)
    · dsimp only [TrieNode.children]
      rw [throws]
      exact Nat.succ_pos _

theorem mem_events {query : MultiQuery} {root : TrieNode} {id : StreamRef} {order : List Nat} {event : WalkEvent} :
    event ∈ Worklist.drain (walkNext loads query.atTime) root.size order [⟨root, id⟩] ↔
      Worklist.Leaves (walkNext loads query.atTime) ⟨root, id⟩ event := by
  rw [Worklist.mem_drain size_spawned (by simp)]
  simp

/-! The index of a query, and the results of all queries. -/

theorem has_set {index : Index} {key name : String} {stream : Stream} :
    (index.set key stream).has name = true ↔ name = key ∨ index.has name = true := by
  unfold InsertionMap.has
  rw [InsertionMap.find?_set]
  split
  next same => simp [same]
  next other => simp [other]

theorem has_foldl_store {events : List WalkEvent} {index : Index} {key : String} :
    (events.foldl store index).has key = true ↔
      index.has key = true ∨ ∃ stream, WalkEvent.entry key stream ∈ events := by
  induction events generalizing index with
  | nil => simp
  | cons event events ih =>
    rw [List.foldl_cons, ih]
    cases event with
    | entry name stream =>
      rw [store, has_set]
      simp [exists_or, or_left_comm, or_assoc]
    | throws e => simp [store]

theorem has_spread {acc res : Index} {key : String} :
    (spread acc res).has key = true ↔ acc.has key = true ∨ res.has key = true := by
  have added (entries : List (String × Stream)) : (entries.foldl (fun acc entry => acc.set entry.1 entry.2) acc).has key =
      true ↔ acc.has key = true ∨ key ∈ entries.map Prod.fst := by
    induction entries generalizing acc with
    | nil => simp
    | cons entry entries ih =>
      rw [List.foldl_cons, ih, has_set, List.map_cons, List.mem_cons, or_right_comm, or_comm]
  rw [spread, added]
  refine or_congr_right ?_
  exact (InsertionMap.mem_keys_iff).trans Option.isSome_iff_exists.symm

theorem has_foldl_spread {queryResults : List Index} {acc : Index} {key : String} :
    (queryResults.foldl spread acc).has key = true ↔
      acc.has key = true ∨ ∃ res ∈ queryResults, res.has key = true := by
  induction queryResults generalizing acc with
  | nil => simp
  | cons res rest ih =>
    rw [List.foldl_cons, ih, has_spread, or_assoc]
    simp

/-- Every stream of the index was loaded. -/
def AllLoaded (loads : Loads) (index : Index) : Prop :=
  ∀ entry ∈ index.entries, ∃ ref atTime, loadStream loads ref atTime = .ok entry.2

namespace AllLoaded

theorem empty : AllLoaded loads (.empty _ _) := fun _ member => absurd member List.not_mem_nil

theorem set {index : Index} (loaded : AllLoaded loads index) {key : String} {stream : Stream} {ref : StreamRef}
    {atTime : Option Nat} (isLoaded : loadStream loads ref atTime = .ok stream) :
    AllLoaded loads (index.set key stream) := by
  intro entry member
  rcases InsertionMap.mem_set.mp member with rfl | ⟨old, _⟩
  · exact ⟨ref, atTime, isLoaded⟩
  · exact loaded entry old

theorem foldl_store {events : List WalkEvent} {index : Index} (loaded : AllLoaded loads index)
    (each : ∀ key stream, WalkEvent.entry key stream ∈ events → ∃ ref atTime, loadStream loads ref atTime = .ok stream) :
    AllLoaded loads (events.foldl store index) := by
  induction events generalizing index with
  | nil => exact loaded
  | cons event events ih =>
    refine ih ?_ fun key stream member => each key stream (List.mem_cons_of_mem _ member)
    cases event with
    | entry key stream =>
      obtain ⟨ref, atTime, isLoaded⟩ := each key stream List.mem_cons_self
      exact loaded.set isLoaded
    | throws e => exact loaded

theorem spread {acc res : Index} (loaded : AllLoaded loads acc) (alsoLoaded : AllLoaded loads res) :
    AllLoaded loads (spread acc res) := by
  unfold MultiQueries.spread
  have each := alsoLoaded
  unfold AllLoaded at each
  generalize res.entries = entries at each
  induction entries generalizing acc with
  | nil => exact loaded
  | cons entry entries ih =>
    obtain ⟨⟨ref, atTime, isLoaded⟩, rest⟩ := List.forall_mem_cons.mp each
    exact ih (loaded.set isLoaded) rest

theorem foldl_spread {queryResults : List Index} {acc : Index} (loaded : AllLoaded loads acc)
    (each : ∀ res ∈ queryResults, AllLoaded loads res) : AllLoaded loads (queryResults.foldl MultiQueries.spread acc) := by
  induction queryResults generalizing acc with
  | nil => exact loaded
  | cons res rest ih =>
    obtain ⟨first, others⟩ := List.forall_mem_cons.mp each
    exact ih (loaded.spread first) others

end AllLoaded

/-- What can be written to was loaded as it is now, and is loaded again. -/
theorem loaded_again {ref : StreamRef} {stream : Stream} (loaded : loadStream loads ref atTime = .ok stream)
    (writable : stream.isReadOnly = false) : loadStream loads (.streamID stream.id) none = .ok stream := by
  obtain ⟨state, isState, made⟩ := bind_eq_ok.mp loaded
  obtain rfl := Except.ok.inj made
  obtain ⟨notCommit, notDated⟩ := Bool.or_eq_false_iff.mp writable
  cases ref with
  | commitID id => cases notCommit
  | streamID id =>
    have now : normalTime atTime = none := by simpa using notDated
    rw [now] at isState ⊢
    have same : StreamUtils.streamIdFromState state = id := loads.identifies _ _ _ isState
    unfold loadStream Stream.id
    rw [same]
    exact bind_eq_ok.mpr ⟨state, isState, rfl⟩

/-- Every path of the query goes into its trie, and no stream that is not the last on a path has null content. -/
structure Kept (loads : Loads) (query : MultiQuery) : Prop where
  paths : ∀ path ∈ query.paths, TrieNode.Plain (PathTrie.segments path).dropLast
  contents : ∀ id fields name ref stream, Opens loads query id →
    (∃ path ∈ query.paths, fields ++ [name] <+: PathTrie.segments path) → TrieNode.Plain (fields ++ [name]) →
    Linked loads query.atTime id fields ref → loadStream loads ref query.atTime = .ok stream →
    stream.content.isNullish = false

/-- An entry that the query gives, along names that objects do not inherit. -/
def Served (loads : Loads) (query : MultiQuery) (key : String) : Prop :=
  Kept loads query ∧ ∃ fields, (fields = [] ∨ ∃ path ∈ query.paths, fields <+: PathTrie.segments path) ∧
    TrieNode.Plain fields ∧ Loaded loads query fields key

theorem indexOf_eq_ok {events : List WalkEvent} {index : Index} : indexOf events = .ok index ↔
    (∀ e, WalkEvent.throws e ∉ events) ∧ index = events.foldl store (.empty _ _) := by
  unfold indexOf
  cases found : events.findSome? WalkEvent.error? with
  | none =>
    rw [List.findSome?_eq_none_iff] at found
    have passed : ∀ e, WalkEvent.throws e ∉ events := fun e member => by cases found _ member
    exact ⟨fun made => ⟨passed, (Except.ok.inj made).symm⟩, fun ⟨_, made⟩ => congrArg _ made.symm⟩
  | some e =>
    obtain ⟨event, member, isThrow⟩ := List.exists_of_findSome?_eq_some found
    refine ⟨nofun, fun ⟨passed, _⟩ => ?_⟩
    cases event with
    | entry key stream => cases isThrow
    | throws e => exact absurd member (passed e)

theorem loadLinkedStreams_eq_ok {query : MultiQuery} {order : List Nat} {index : Index} :
    _loadLinkedStreams loads query order = .ok index ↔ ∃ id root, Opens loads query id ∧
      query.paths.foldlM PathTrie.add ⟨[]⟩ = .ok root ∧
      (∀ e, ¬Worklist.Leaves (walkNext loads query.atTime) ⟨root, id⟩ (.throws e)) ∧
      index = (Worklist.drain (walkNext loads query.atTime) root.size order [⟨root, id⟩]).foldl store (.empty _ _) := by
  unfold _loadLinkedStreams
  constructor
  · intro returned
    obtain ⟨id, isId, rest⟩ := bind_eq_ok.mp returned
    obtain ⟨root, built, rest⟩ := bind_eq_ok.mp rest
    obtain ⟨_, genesis, rest⟩ := bind_eq_ok.mp rest
    obtain ⟨passed, made⟩ := indexOf_eq_ok.mp rest
    exact ⟨id, root, ⟨isId, genesis⟩, built, fun e leaves => passed e (mem_events.mpr leaves), made⟩
  · rintro ⟨id, root, ⟨isId, genesis⟩, built, passed, made⟩
    refine bind_eq_ok.mpr ⟨id, isId, bind_eq_ok.mpr ⟨root, built, bind_eq_ok.mpr ⟨(), genesis, ?_⟩⟩⟩
    exact indexOf_eq_ok.mpr ⟨fun e member => passed e (mem_events.mp member), made⟩

theorem plain_empty : ∀ fields, TrieNode.Has ⟨[]⟩ fields → TrieNode.Plain fields := by
  intro fields has
  rw [TrieNode.has_empty.mp has]
  exact nofun

/-- The trie of a query has the prefixes of its paths along plain names. -/
theorem has_root {query : MultiQuery} {root : TrieNode} (built : query.paths.foldlM PathTrie.add ⟨[]⟩ = .ok root)
    (fields : List String) : root.Has fields ↔
      (fields = [] ∨ ∃ path ∈ query.paths, fields <+: PathTrie.segments path) ∧ TrieNode.Plain fields := by
  rw [PathTrie.has_foldlM plain_empty built, TrieNode.has_empty]
  constructor
  · rintro (rfl | ⟨path, member, isPrefix, plain⟩)
    · exact ⟨.inl rfl, nofun⟩
    · exact ⟨.inr ⟨path, member, isPrefix⟩, plain⟩
  · rintro ⟨rfl | ⟨path, member, isPrefix⟩, plain⟩
    · exact .inl rfl
    · exact .inr ⟨path, member, isPrefix, plain⟩

/-- The keys of a query's index, in whatever order its streams are loaded. -/
theorem has_loadLinkedStreams {query : MultiQuery} {order : List Nat} {key : String} :
    (∃ index, _loadLinkedStreams loads query order = .ok index ∧ index.has key = true) ↔ Served loads query key := by
  constructor
  · rintro ⟨index, loaded, has⟩
    obtain ⟨id, root, opens, built, passed, rfl⟩ := loadLinkedStreams_eq_ok.mp loaded
    refine ⟨⟨(PathTrie.foldlM_eq_ok plain_empty).mp ⟨root, built⟩, ?_⟩, ?_⟩
    · intro id' fields name ref stream opens' isPrefix plain linked loaded
      obtain rfl := Except.ok.inj (opens.root.symm.trans opens'.root)
      refine Bool.eq_false_iff.mpr fun nullish => ?_
      obtain ⟨e, leaves⟩ := leaves_throws.mpr
        ⟨fields, name, ref, stream, (has_root built _).mpr ⟨.inr isPrefix, plain⟩, linked, loaded, nullish⟩
      exact passed e leaves
    · obtain ⟨stream, member⟩ := (has_foldl_store.mp has).resolve_left nofun
      obtain ⟨fields, ref, inTrie, linked, loaded, isKey⟩ := leaves_entry.mp (mem_events.mp member)
      obtain ⟨isPrefix, plain⟩ := (has_root built fields).mp inTrie
      exact ⟨fields, isPrefix, plain, id, ref, stream, opens, linked, loaded, isKey⟩
  · rintro ⟨kept, fields, isPrefix, plain, id, ref, stream, opens, linked, loaded, rfl⟩
    obtain ⟨root, built⟩ := (PathTrie.foldlM_eq_ok plain_empty).mpr kept.paths
    refine ⟨_, loadLinkedStreams_eq_ok.mpr ⟨id, root, opens, built, ?_, rfl⟩, ?_⟩
    · intro e leaves
      obtain ⟨fields, name, ref, stream, inTrie, linked, loaded, nullish⟩ := leaves_throws.mp ⟨e, leaves⟩
      obtain ⟨isPrefix, plain⟩ := (has_root built _).mp inTrie
      have present := kept.contents id fields name ref stream opens (isPrefix.resolve_left (by simp)) plain linked loaded
      cases present.symm.trans nullish
    · refine has_foldl_store.mpr (.inr ⟨stream, mem_events.mpr (leaves_entry.mpr ?_)⟩)
      exact ⟨fields, ref, (has_root built fields).mpr ⟨isPrefix, plain⟩, linked, loaded, rfl⟩

theorem allLoaded_loadLinkedStreams {query : MultiQuery} {order : List Nat} {index : Index}
    (returned : _loadLinkedStreams loads query order = .ok index) : AllLoaded loads index := by
  obtain ⟨id, root, _, _, _, rfl⟩ := loadLinkedStreams_eq_ok.mp returned
  refine AllLoaded.empty.foldl_store fun key stream member => ?_
  obtain ⟨_, ref, _, _, loaded, _⟩ := leaves_entry.mp (mem_events.mp member)
  exact ⟨ref, query.atTime, loaded⟩

theorem has_queryResult {query : MultiQuery × List Nat} {key : String} :
    (queryResult loads query).has key = true ↔ Served loads query.1 key := by
  rw [← @has_loadLinkedStreams loads query.1 query.2 key, queryResult]
  cases loaded : _loadLinkedStreams loads query.1 query.2 with
  | ok index => simp [Except.toOption]
  | error e =>
    simp only [Except.toOption, Option.getD_none]
    constructor
    · intro has
      cases has
    · rintro ⟨_, isOk, _⟩
      cases isOk

theorem allLoaded_queryResult (query : MultiQuery × List Nat) : AllLoaded loads (queryResult loads query) := by
  unfold queryResult
  cases loaded : _loadLinkedStreams loads query.1 query.2 with
  | ok index => exact allLoaded_loadLinkedStreams loaded
  | error e => exact .empty

/-- The result has what the queries serve; each stream that it hands out can be loaded again. -/
theorem multiQuery_spec (queries : List (MultiQuery × List Nat)) : ∃ results, multiQuery loads queries = .ok results ∧
    ∀ key, results.has key = true ↔ ∃ query ∈ queries, Served loads query.1 key := by
  refine ⟨(queries.map (queryResult loads)).foldl spread (.empty _ _), bind_eq_ok.mpr ⟨(), forM_eq_ok.mpr ?_, rfl⟩, ?_⟩
  · have allLoaded : AllLoaded loads ((queries.map (queryResult loads)).foldl spread (.empty _ _)) :=
      AllLoaded.empty.foldl_spread (List.forall_mem_map.mpr fun query _ => allLoaded_queryResult query)
    intro stream member
    obtain ⟨entry, inResults, rfl⟩ := List.mem_map.mp member
    obtain ⟨ref, atTime, loaded⟩ := allLoaded entry inResults
    unfold sync
    split
    · rfl
    next writable => rw [loaded_again loaded (Bool.eq_false_iff.mpr writable)]; rfl
  · intro key
    rw [has_foldl_spread, or_iff_right nofun]
    simp only [List.mem_map, exists_exists_and_eq_and, has_queryResult]

/-- The claim of a query: the result has an entry for every stream that is reached and no other. -/
def Exact (loads : Loads) (queries : List (MultiQuery × List Nat)) : Prop :=
  ∃ results, multiQuery loads queries = .ok results ∧
    ∀ key, results.has key = true ↔ ∃ query ∈ queries, Entry loads query.1 key

theorem entry_of_served {query : MultiQuery} {key : String} (served : Served loads query key) : Entry loads query key := by
  obtain ⟨_, fields, isPrefix, _, loaded⟩ := served
  exact ⟨fields, isPrefix, loaded⟩

/-- The result of some queries is exact exactly if every stream that one of them reaches is reached by one that is
kept, along names that objects do not inherit. -/
theorem multiQuery_exact_iff (loads : Loads) (queries : List (MultiQuery × List Nat)) : Exact loads queries ↔
    ∀ key, (∃ query ∈ queries, Entry loads query.1 key) → ∃ query ∈ queries, Served loads query.1 key := by
  obtain ⟨results, returned, hasServed⟩ := @multiQuery_spec loads queries
  constructor
  · rintro ⟨_, returned', hasEntries⟩ key entry
    obtain rfl := Except.ok.inj (returned.symm.trans returned')
    exact (hasServed key).mp ((hasEntries key).mpr entry)
  · intro covered
    refine ⟨results, returned, fun key => (hasServed key).trans ⟨?_, covered key⟩⟩
    rintro ⟨query, member, served⟩
    exact ⟨query, member, entry_of_served served⟩

end

/-! A document that links to one whose content is still null. -/
namespace MultiQueryFixture

def idOf (b : UInt8) : StreamID := ⟨3, .v1 0x71 (createMultihash 0x12 (List.replicate 32 b))⟩

def stateOf (id : StreamID) (content : JsValue) : StreamState where
  type := id.type
  content
  metadata := []
  signature := .GENESIS
  anchorStatus := .NOT_REQUESTED
  log := .singleton ⟨id.cid, .INIT, .undefined, none⟩

def profile : StreamID := idOf 1

def account : StreamID := idOf 2

def loads : Loads where
  parseCID _ := none
  load ref _ :=
    if ref = .streamID profile then .ok (stateOf profile (.obj [("account", .str account.toString)]))
    else if ref = .streamID account then .ok (stateOf account .null)
    else .error ⟨"not found"⟩
  identifies ref _ state loaded := by
    split at loaded
    next isProfile =>
      obtain rfl := Except.ok.inj loaded
      rw [isProfile]
      rfl
    next =>
      split at loaded
      next isAccount =>
        obtain rfl := Except.ok.inj loaded
        rw [isAccount]
        rfl
      next => cases loaded

theorem load_profile : loads.load (.streamID profile) none =
    .ok (stateOf profile (.obj [("account", .str account.toString)])) := by
  dsimp only [loads]
  exact if_pos rfl

def query : MultiQuery := { streamId := .ref (.streamID profile), paths := ["/account/name"] }

/-- The profile is not in the result, although it was loaded. -/
theorem profile_missing : ¬∀ (loads : Loads) (queries : List (MultiQuery × List Nat)), Exact loads queries := by
  intro exact
  obtain ⟨results, returned, has⟩ := exact loads [(query, [])]
  have entry : Entry loads query profile.toString := by
    have loaded : loadStream loads (.streamID profile) none =
        .ok ⟨stateOf profile (.obj [("account", .str account.toString)]), false⟩ :=
      bind_eq_ok.mpr ⟨_, load_profile, rfl⟩
    exact ⟨[], .inl rfl, _, _, _, ⟨rfl, rfl⟩, .here _, loaded, rfl⟩
  have given := (has profile.toString).mpr ⟨_, List.mem_singleton_self _, entry⟩
  have count : (multiQuery loads [(query, [])]).toOption.map (fun results => results.entries.length) = some 0 := by
    decide +kernel
  rw [returned] at count
  have empty : results.entries = [] := List.length_eq_zero_iff.mp (Option.some.inj count)
  simp [InsertionMap.has, InsertionMap.find?, empty] at given

end MultiQueryFixture

end Ceramic.MultiQueries
