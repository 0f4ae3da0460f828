import ChainScript.Host
import ChainScript.Proofs.OwnHandler

/-!
# Registries and their histories

A host keeps any number of registries. It makes new ones, attaches handlers to classes, takes them
away again, and copies registries, in any order. What happened to a registry is its history, and a
copy starts with the history of its original. `Registry.standing` reads the attachments that stand
off a history: an attachment stands when nothing happened to its class after it.

`handlers_follow_history` says that a registry is no more than that. It holds the attachments that
stand, in the order in which they were made, and a resolver without a handler of its own is served
by the newest of them whose class it is an instance of, and by no other. Every request that is not
made to a registry, or that is refused, leaves the registry as it was.
-/

namespace ChainScript

open Run (on)

namespace Registry

/-! ## Histories -/

/-- What happens to a registry. -/
inductive Event where
  | attach (c : Class) (handlers : HandlerSet)
  | detach (c : Class)

namespace Event

/-- The class that the event happens to. -/
def subject : Event → Class
  | .attach c _ | .detach c => c

/-- What the event enters. -/
def entered : Event → List (Class × HandlerSet)
  | .attach c handlers => [(c, handlers)]
  | .detach _ => []

end Event

/-- The attachments of a history that stand at its end, the oldest first. -/
def standing : List Event → List (Class × HandlerSet)
  | [] => []
  | event :: later =>
    if event.subject ∈ later.map Event.subject then standing later
    else event.entered ++ standing later

/-- One more event takes away what stood for its class, and enters what it enters. -/
theorem standing_append (past : List Event) (event : Event) :
    standing (past ++ [event])
      = (standing past).filter (fun entry => !decide (entry.1 = event.subject)) ++ event.entered := by
  induction past with
  | nil => simp [standing]
  | cons first later ih =>
    rw [List.cons_append, standing, standing, ih, List.map_append, List.map_singleton]
    by_cases hlater : first.subject ∈ later.map Event.subject
    · rw [if_pos (List.mem_append_left _ hlater), if_pos hlater]
    · rw [if_neg hlater]
      by_cases hsame : first.subject = event.subject
      · -- The new event is the last word on the class of the first one.
        have hgone : (first.entered).filter (fun entry => !decide (entry.1 = event.subject)) = [] := by
          cases first with
          | attach c handlers =>
            have hc : c = event.subject := hsame
            simp [Event.entered, hc]
          | detach c => rfl
        have hmem : first.subject ∈ later.map Event.subject ++ [event.subject] := by
          rw [hsame]
          exact List.mem_append_right _ (List.mem_singleton_self _)
        rw [if_pos hmem, List.filter_append, hgone, List.nil_append]
      · have hkept : (first.entered).filter (fun entry => !decide (entry.1 = event.subject))
            = first.entered := by
          cases first with
          | attach c handlers =>
            have hc : ¬c = event.subject := hsame
            simp [Event.entered, hc]
          | detach c => rfl
        have hnot : first.subject ∉ later.map Event.subject ++ [event.subject] := by
          rw [List.mem_append, List.mem_singleton]
          exact fun h => h.elim hlater hsame
        rw [if_neg hnot, List.filter_append, hkept, List.append_assoc]

/-- What an event makes of a registry. -/
def after (r : Registry) : Event → Registry
  | .attach c handlers => r.attach c handlers
  | .detach c => r.detach c

/-- Attaching moves a class to the end with its new handlers. -/
theorem entries_attach (r : Registry) (c : Class) (handlers : HandlerSet) :
    (r.attach c handlers).entries
      = r.entries.filter (fun entry => !decide (entry.1 = c)) ++ [(c, handlers)] := by
  have hgone : c ∉ (Table.erase r c).entries.map Prod.fst := by
    simp [Table.erase]
  rw [attach, Table.insert, dif_neg hgone]
  rfl

/-- A registry that holds what stands after its history still does after one more event. -/
theorem entries_after {r : Registry} {past : List Event} (hr : r.entries = standing past)
    (event : Event) : (r.after event).entries = standing (past ++ [event]) := by
  rw [standing_append, ← hr]
  cases event with
  | attach c handlers => exact entries_attach r c handlers
  | detach c => exact (List.append_nil _).symm

/-! ## Requests to any number of registries -/

/-- What a host asks of its registries, which it names by their places. -/
inductive Request where
  | create
  | attach (registry : Nat) (target onGet onSet onDelete : Value)
  | detach (registry : Nat) (target : Value)
  | copy (registry : Nat)

/-- A handler that a host may give: nothing for null, and a value that can be called. -/
def handlerGiven? (h : Heap) (v : Value) : Option (Option Value) :=
  if v = .null then some none else if h.isCallable v then some (some v) else none

/-- The class and the handlers of an attachment that is accepted. -/
def attachment? (h : Heap) (target onGet onSet onDelete : Value) : Option (Class × HandlerSet) :=
  match target with
  | .type c => do
    let get ← handlerGiven? h onGet
    let set ← handlerGiven? h onSet
    let delete ← handlerGiven? h onDelete
    return (c, ⟨get, set, delete⟩)
  | _ => none

namespace Request

/-- The event that a request is, and the registry to which it happens. A request that is refused,
and one that makes a registry, is no event. -/
def event? (h : Heap) : Request → Option (Nat × Event)
  | .attach i target onGet onSet onDelete =>
    (attachment? h target onGet onSet onDelete).map fun (c, handlers) => (i, .attach c handlers)
  | .detach i (.type c) => some (i, .detach c)
  | _ => none

/-- The registries after a request that is made on a machine. -/
def perform (m : Machine) (registries : List Registry) : Request → List Registry
  | .create => registries ++ [.empty]
  | .attach i target onGet onSet onDelete =>
    registries.modify i fun registry =>
      (on (Host.attach target onGet onSet onDelete) { m with registry }).2.registry
  | .detach i target =>
    registries.modify i fun registry => (on (Host.detach target) { m with registry }).2.registry
  | .copy i => registries ++ (registries[i]?).toList

/-- What a request adds to a list that has one item for each registry. -/
def added {α : Type} (new : α) (items : List α) : Request → List α
  | .create => [new]
  | .copy i => (items[i]?).toList
  | _ => []

/-- The histories of the registries after a request. -/
def recorded (h : Heap) (pasts : List (List Event)) (request : Request) : List (List Event) :=
  match request.event? h with
  | some (i, event) => pasts.modify i fun past => past ++ [event]
  | none => pasts ++ request.added [] pasts

end Request

/-- The registries that requests leave, each made on the machine as it was then. -/
def ofRequests (requests : List (Machine × Request)) : List Registry :=
  requests.foldl (fun registries (m, request) => request.perform m registries) []

/-- The histories of these registries. -/
def histories (requests : List (Machine × Request)) : List (List Event) :=
  requests.foldl (fun pasts (m, request) => request.recorded m.heap pasts) []

/-! ## What a request does -/

/-- A handler that may be given is taken as it is, and any other value is a fault. -/
theorem on_givenHandler (v : Value) (m : Machine) :
    on (Host.givenHandler v) m = match handlerGiven? m.heap v with
      | some given => (.ok given, m)
      | none => (.error (.fault (.attachHandler v)), m) := by
  unfold Host.givenHandler handlerGiven?
  split
  · rfl
  · rw [Run.on_bind, Run.on_heap]
    dsimp only
    split <;> rfl

/-- An attachment is accepted, or refused as a fault of type. A refused one leaves the machine as it
was. -/
theorem on_attach (target onGet onSet onDelete : Value) (m : Machine) :
    match attachment? m.heap target onGet onSet onDelete with
    | some (c, handlers) =>
      on (Host.attach target onGet onSet onDelete) m
        = (.ok handlers, { m with registry := m.registry.attach c handlers })
    | none => ∃ fault : Fault, fault.kind = .typeError
        ∧ on (Host.attach target onGet onSet onDelete) m = (.error (.fault fault), m) := by
  cases target with
  | type c =>
    simp only [attachment?, Host.attach, Run.on_bind, on_givenHandler]
    cases handlerGiven? m.heap onGet with
    | none => exact ⟨_, rfl, rfl⟩
    | some get =>
      dsimp only
      cases handlerGiven? m.heap onSet with
      | none => exact ⟨_, rfl, rfl⟩
      | some set =>
        dsimp only
        cases handlerGiven? m.heap onDelete with
        | none => exact ⟨_, rfl, rfl⟩
        | some delete => rfl
  | _ => exact ⟨_, rfl, rfl⟩

/-- A request that is an event happens to the registry that it is made to. -/
theorem perform_of_event {m : Machine} {request : Request} {i : Nat} {event : Event}
    (hevent : request.event? m.heap = some (i, event)) (registries : List Registry) :
    request.perform m registries = registries.modify i fun registry => registry.after event := by
  cases request with
  | create => cases hevent
  | copy j => cases hevent
  | attach j target onGet onSet onDelete =>
    obtain ⟨⟨c, handlers⟩, hattachment, hpair⟩ := Option.map_eq_some_iff.mp hevent
    cases hpair
    have hstep : ∀ registry : Registry,
        (on (Host.attach target onGet onSet onDelete) { m with registry }).2.registry
          = registry.after (.attach c handlers) := by
      intro registry
      have hon := on_attach target onGet onSet onDelete { m with registry }
      rw [hattachment] at hon
      exact congrArg (fun ends => ends.2.registry) hon
    exact congrArg (registries.modify i) (funext hstep)
  | detach j target =>
    cases target with
    | type c => cases hevent; rfl
    | _ => cases hevent

/-- A request that is no event leaves the registries that there are as they were. -/
theorem perform_of_no_event {m : Machine} {request : Request}
    (hevent : request.event? m.heap = none) (registries : List Registry) :
    request.perform m registries = registries ++ request.added .empty registries := by
  cases request with
  | create => rfl
  | copy j => rfl
  | attach j target onGet onSet onDelete =>
    have hattachment : attachment? m.heap target onGet onSet onDelete = none :=
      Option.map_eq_none_iff.mp hevent
    have hstep : ∀ registry : Registry,
        (on (Host.attach target onGet onSet onDelete) { m with registry }).2.registry = registry := by
      intro registry
      have hon := on_attach target onGet onSet onDelete { m with registry }
      rw [hattachment] at hon
      obtain ⟨fault, -, hon⟩ := hon
      exact congrArg (fun ends => ends.2.registry) hon
    rw [Request.perform, funext hstep]
    exact (List.modify_id j registries).trans (List.append_nil _).symm
  | detach j target =>
    have hstep : ∀ registry : Registry,
        (on (Host.detach target) { m with registry }).2.registry = registry := by
      intro registry
      cases target with
      | type c => cases hevent
      | _ => rfl
    rw [Request.perform, funext hstep]
    exact (List.modify_id j registries).trans (List.append_nil _).symm

/-- A request that is not an event of a registry leaves that registry as it was. -/
theorem getElem?_perform_of_ne {m : Machine} {request : Request} {registries : List Registry}
    {i : Nat} {r : Registry} (hr : registries[i]? = some r)
    (hother : ∀ event, request.event? m.heap ≠ some (i, event)) :
    (request.perform m registries)[i]? = some r := by
  cases hevent : request.event? m.heap with
  | none =>
    have hi : i < registries.length := (List.getElem?_eq_some_iff.mp hr).1
    rw [perform_of_no_event hevent, List.getElem?_append_left hi, hr]
  | some happened =>
    obtain ⟨j, event⟩ := happened
    have hj : j ≠ i := fun hj => hother event (hj ▸ hevent)
    rw [perform_of_event hevent, List.getElem?_modify, hr]
    simp [hj]

/-! ## Registries follow their histories -/

/-- Registries that hold what stands after their histories still do after a request. -/
theorem entries_perform {m : Machine} {registries : List Registry} {pasts : List (List Event)}
    (hfollow : registries.map Table.entries = pasts.map standing) (request : Request) :
    (request.perform m registries).map Table.entries
      = (request.recorded m.heap pasts).map standing := by
  have hat : ∀ i : Nat, (registries[i]?).map Table.entries = (pasts[i]?).map standing := by
    intro i
    rw [← List.getElem?_map, ← List.getElem?_map, hfollow]
  unfold Request.recorded
  cases hevent : request.event? m.heap with
  | none =>
    have hadded : (request.added .empty registries).map Table.entries
        = (request.added [] pasts).map standing := by
      cases request with
      | create => rfl
      | copy j =>
        have hj := hat j
        cases hr : registries[j]? <;> cases hpast : pasts[j]? <;> simp_all [Request.added]
      | _ => rfl
    rw [perform_of_no_event hevent, List.map_append, List.map_append, hfollow, hadded]
  | some happened =>
    obtain ⟨j, event⟩ := happened
    rw [perform_of_event hevent]
    refine List.ext_getElem? fun i => ?_
    rw [List.getElem?_map, List.getElem?_map, List.getElem?_modify, List.getElem?_modify]
    have hi := hat i
    by_cases hj : j = i
    · -- Only here does a registry change, and its history by the same event.
      cases hr : registries[i]? with
      | none => cases hpast : pasts[i]? <;> simp_all
      | some r =>
        cases hpast : pasts[i]? with
        | none => rw [hr, hpast] at hi; cases hi
        | some past =>
          rw [hr, hpast] at hi
          have hafter := entries_after (Option.some.inj hi) event
          simp [hj, hafter]
    · simpa [hj] using hi

/-- After any requests, the registries hold what stands after their histories. -/
theorem entries_ofRequests (requests : List (Machine × Request)) :
    (ofRequests requests).map Table.entries = (histories requests).map standing := by
  have hfold : ∀ (requests : List (Machine × Request)) (registries : List Registry)
      (pasts : List (List Event)), registries.map Table.entries = pasts.map standing →
      (requests.foldl (fun registries (m, request) => request.perform m registries)
          registries).map Table.entries
        = (requests.foldl (fun pasts (m, request) => request.recorded m.heap pasts)
            pasts).map standing := by
    intro requests
    induction requests with
    | nil => exact fun _ _ hfollow => hfollow
    | cons first rest ih =>
      exact fun registries pasts hfollow => ih _ _ (entries_perform hfollow first.2)
  exact hfold requests [] [] rfl

/-! ## Serving a resolver -/

/-- The newest of attached classes of which a value is an instance, with its handlers. -/
def Newest (h : Heap) (v : Value) (attached : List (Class × HandlerSet)) (c : Class)
    (handlers : HandlerSet) : Prop :=
  ∃ older newer, attached = older ++ (c, handlers) :: newer ∧ h.isInstance v c = true
    ∧ ∀ entry ∈ newer, h.isInstance v entry.1 = false

/-- The lookup finds the handlers of the newest class that fits. -/
theorem newest_of_lookup {r : Registry} {h : Heap} {resolver : Value} {handlers : HandlerSet}
    (hfound : r.lookup h resolver = some handlers) :
    ∃ c, Newest h resolver r.entries c handlers := by
  obtain ⟨⟨c, found⟩, hfind, hfound⟩ := Option.map_eq_some_iff.mp hfound
  cases hfound
  obtain ⟨hfits, newer, older, hsplit, hnot⟩ := List.find?_eq_some_iff_append.mp hfind
  refine ⟨c, older.reverse, newer.reverse, ?_, hfits, fun entry hentry => ?_⟩
  · rw [← List.reverse_reverse r.entries, hsplit, List.reverse_append, List.reverse_cons,
      List.append_assoc, List.singleton_append]
  · simpa using hnot entry (List.mem_reverse.mp hentry)

/-- It finds them wherever there is such a class. -/
theorem lookup_of_newest {r : Registry} {h : Heap} {resolver : Value} {c : Class}
    {handlers : HandlerSet} (hnewest : Newest h resolver r.entries c handlers) :
    r.lookup h resolver = some handlers := by
  obtain ⟨older, newer, hsplit, hfits, hnot⟩ := hnewest
  have hfind : r.entries.reverse.find? (fun entry => h.isInstance resolver entry.1)
      = some (c, handlers) := by
    refine List.find?_eq_some_iff_append.mpr ⟨hfits, newer.reverse, older.reverse, ?_, ?_⟩
    · simp [hsplit]
    · intro entry hentry
      simpa using hnot entry (List.mem_reverse.mp hentry)
  rw [lookup, hfind]
  rfl

/-- The lookup finds nothing only where no class fits. -/
theorem not_isInstance_of_lookup {r : Registry} {h : Heap} {resolver : Value}
    (hnone : r.lookup h resolver = none) :
    ∀ entry ∈ r.entries, h.isInstance resolver entry.1 = false := by
  intro entry hentry
  have hall := List.find?_eq_none.mp (Option.map_eq_none_iff.mp hnone)
  simpa using hall entry (List.mem_reverse.mpr hentry)

/-- How the search for a handler ends, given the attachments that stand, the oldest first. What is
said here depends on no older class than the newest that fits. Nothing is said of a record that
keeps its handler under a symbol that cannot be put into words. -/
inductive Served (attached : List (Class × HandlerSet)) (resolver : Value) (kind : AccessKind)
    (m : Machine) : Except Stop Handler × Machine → Prop
  /-- The resolver has a handler of its own. -/
  | own {f : Value} {m' : Machine}
    (hown : on (Resolver.selfAttached resolver kind) m = (.ok (some f), m')) :
    Served attached resolver kind m (.ok ⟨f, none⟩, m')
  /-- It has none, and the newest class that fits has one. -/
  | attached {c : Class} {handlers : HandlerSet} {f : Value}
    (hown : on (Resolver.selfAttached resolver kind) m = (.ok none, m))
    (hnewest : Newest m.heap resolver attached c handlers) (hf : handlers.forKind kind = some f) :
    Served attached resolver kind m (.ok ⟨f, some resolver⟩, m)
  /-- It has none, and the newest class that fits has none for this kind of access. -/
  | lacking {c : Class} {handlers : HandlerSet}
    (hown : on (Resolver.selfAttached resolver kind) m = (.ok none, m))
    (hnewest : Newest m.heap resolver attached c handlers) (hf : handlers.forKind kind = none) :
    Served attached resolver kind m (.error (.fault (.noHandler resolver kind)), m)
  /-- It has none, and no class fits. -/
  | unmatched (hown : on (Resolver.selfAttached resolver kind) m = (.ok none, m))
    (hnot : ∀ entry ∈ attached, m.heap.isInstance resolver entry.1 = false) :
    Served attached resolver kind m (.error (.fault (.noHandler resolver kind)), m)
  /-- What it offers in the place of a handler is neither null nor can it be called. -/
  | broken {v : Value} {bySymbol : Bool}
    (hoffer : Resolver.offered m.heap resolver kind = .ok (some (.value v), bySymbol))
    (hv : v ≠ .null) (hcallable : m.heap.isCallable v = false) :
    Served attached resolver kind m
      (.error (.fault (.handlerNotFunction resolver kind bySymbol)), m)
  /-- The reserved symbol under which it keeps its handler cannot be put into words. -/
  | unshown {failure : PrintFailure} {ends : Except Stop Handler × Machine}
    (hoffer : Resolver.offered m.heap resolver kind = .error failure) :
    Served attached resolver kind m ends

/-- The message that refuses an offer can be made, because the symbol was put into words before. -/
theorem arising_handlerNotFunction {h : Heap} {resolver : Value} {kind : AccessKind}
    {given : Option Given} {bySymbol : Bool}
    (hoffer : Resolver.offered h resolver kind = .ok (given, bySymbol)) :
    Fault.arising h (.handlerNotFunction resolver kind bySymbol)
      = .handlerNotFunction resolver kind bySymbol := by
  have hshown : ∃ text, bySymbol = true → h.inspect (.object kind.symbol) = .ok text := by
    unfold Resolver.offered at hoffer
    split at hoffer
    · split at hoffer
      · cases hinspect : h.inspect (.object kind.symbol) with
        | ok text => exact ⟨text, fun _ => rfl⟩
        | error failure => rw [hinspect] at hoffer; cases hoffer
      · cases hoffer
        exact ⟨"", fun hsymbol => nomatch hsymbol⟩
    all_goals
      cases hoffer
      exact ⟨"", fun hsymbol => nomatch hsymbol⟩
  obtain ⟨text, htext⟩ := hshown
  rw [Fault.arising, Resolver.message_handlerNotFunction resolver htext]

/-- A registry serves a resolver from what it holds. -/
theorem served_handler (m : Machine) (resolver : Value) (kind : AccessKind) :
    Served m.registry.entries resolver kind m (on (Resolver.handler resolver kind) m) := by
  have hsearch := Resolver.on_selfAttached resolver kind m
  rw [Resolver.on_handler]
  rcases hown : on (Resolver.selfAttached resolver kind) m with ⟨e | _ | f, m'⟩
  · -- The search was stopped, so what the resolver offers is no handler.
    rw [hown] at hsearch
    cases hoffer : Resolver.offered m.heap resolver kind with
    | error failure => exact .unshown hoffer
    | ok offer =>
      rw [hoffer] at hsearch
      obtain ⟨given, bySymbol⟩ := offer
      have hsettled : ∀ part, given ≠ some (.part part) := by
        rintro part rfl
        exact Resolver.ne_part_of_offered hoffer part rfl
      obtain ⟨v, rfl, hv, hcallable, he, rfl⟩ := Resolver.refused_of_accept hsettled hsearch.symm
      rw [arising_handlerNotFunction hoffer] at he
      subst he
      exact .broken hoffer hv hcallable
  · cases Resolver.eq_of_on_selfAttached_none hown
    unfold Resolver.attachedEnd
    dsimp only
    cases hfound : m.registry.lookup m.heap resolver with
    | none => exact .unmatched hown (not_isInstance_of_lookup hfound)
    | some handlers =>
      obtain ⟨c, hnewest⟩ := newest_of_lookup hfound
      rw [Option.bind_some]
      cases hf : handlers.forKind kind with
      | none => exact .lacking hown hnewest hf
      | some f => exact .attached hown hnewest hf
  · exact .own hown

/-! ## The main result -/

/-- What a registry among others is, given its history. -/
structure Follows (registries : List Registry) (i : Nat) (r : Registry) (past : List Event) :
    Prop where
  /-- It holds the attachments that stand, the oldest first. -/
  entries : r.entries = standing past
  /-- It holds each class at most once. -/
  once : ((standing past).map Prod.fst).Nodup
  /-- A request that is refused, or is made to another registry, or makes one, leaves it as it was.
  -/
  kept : ∀ (m : Machine) (request : Request), (∀ event, request.event? m.heap ≠ some (i, event)) →
    (request.perform m registries)[i]? = some r
  /-- An attachment that is not accepted is a fault of type, which leaves the whole machine as it
  was. -/
  refused : ∀ (m : Machine) (target onGet onSet onDelete : Value),
    attachment? m.heap target onGet onSet onDelete = none →
    ∃ fault : Fault, fault.kind = .typeError
      ∧ on (Host.attach target onGet onSet onDelete) m = (.error (.fault fault), m)
  /-- It serves every resolver from the attachments that stand. -/
  served : ∀ (m : Machine) (resolver : Value) (kind : AccessKind), m.registry = r →
    Served (standing past) resolver kind m (on (Resolver.handler resolver kind) m)

/-- Whatever is asked of any number of registries, each of them follows its history. -/
theorem handlers_follow_history (requests : List (Machine × Request)) (i : Nat) (r : Registry)
    (hr : (ofRequests requests)[i]? = some r) :
    ∃ past, (histories requests)[i]? = some past ∧ Follows (ofRequests requests) i r past := by
  have hat : ((ofRequests requests)[i]?).map Table.entries
      = ((histories requests)[i]?).map standing := by
    rw [← List.getElem?_map, ← List.getElem?_map, entries_ofRequests]
  rw [hr] at hat
  obtain ⟨past, hpast, hstanding⟩ := Option.map_eq_some_iff.mp hat.symm
  refine ⟨past, hpast, ?_⟩
  constructor
  case entries => exact hstanding.symm
  case once => exact hstanding ▸ r.nodup
  case kept => exact fun m request hother => getElem?_perform_of_ne hr hother
  case refused =>
    intro m target onGet onSet onDelete hattachment
    have hon := on_attach target onGet onSet onDelete m
    rw [hattachment] at hon
    exact hon
  case served =>
    rintro m resolver kind rfl
    exact hstanding ▸ served_handler m resolver kind

/-- Handlers that serve reads alone, by collecting their arguments. -/
def collecting : HandlerSet := ⟨some (.builtin .collect), none, none⟩

/-- A registry to which a class is attached twice, around another class and a copy, and requests
that the first registry has no part in. -/
def reattached : List (Machine × Request) :=
  [.create, .attach 0 (.type (.host .plain)) (.builtin .collect) .null .null,
    .attach 0 (.type .list) (.builtin .bindGet) .null .null, .copy 0,
    .attach 0 (.type (.host .plain)) .null (.builtin .collect) .null, .attach 0 .null .null .null .null,
    .detach 1 (.type .list)].map fun request => (Machine.blank, request)

/-- The class that was attached again is the newest in the first registry, and the copy still holds
it as it was. -/
theorem reattached_follow_history :
    ∃ r copy, (ofRequests reattached)[0]? = some r ∧ (ofRequests reattached)[1]? = some copy
      ∧ r.keys = [.list, .host .plain] ∧ copy.entries = [(.host .plain, collecting)]
      ∧ ∃ past, (histories reattached)[0]? = some past ∧ Follows (ofRequests reattached) 0 r past :=
  ⟨_, _, rfl, rfl, rfl, rfl, handlers_follow_history reattached 0 _ rfl⟩

/-- A class that offers a number in the place of a handler for reads. -/
def offeringNumber : HostClass :=
  { HostClass.plain with
    identity := 2
    name := "Broken"
    ancestors := [HostClass.plain.identity]
    offers := ⟨.number 42, .nothing, .nothing⟩ }

/-- A machine with an object of that class, and with a handler attached to a class that fits the
object. -/
def besideBroken : Machine :=
  { Machine.blank with
    heap := (Machine.blank.heap.alloc (.instance offeringNumber)).2
    registry := Registry.attach .empty (.host .plain) collecting }

/-- A resolver without a handler of its own need not be served by the newest class that fits: the
number that this one offers is no handler, and the attached handler is passed over all the same. -/
theorem offered_number_is_not_passed_over :
    Resolver.offered besideBroken.heap (.object 4) .get = .ok (some (.value (.int 42)), false)
      ∧ besideBroken.heap.isCallable (.int 42) = false
      ∧ Newest besideBroken.heap (.object 4) besideBroken.registry.entries (.host .plain) collecting
      ∧ collecting.forKind .get = some (.builtin .collect)
      ∧ on (Resolver.handler (.object 4) .get) besideBroken
        = (.error (.fault (.handlerNotFunction (.object 4) .get false)), besideBroken) :=
  ⟨rfl, rfl, ⟨[], [], rfl, rfl, by simp⟩, rfl, rfl⟩

end Registry

end ChainScript
