import ChainScript.Runner
import ChainScript.Proofs.Action
import ChainScript.Proofs.Alike

/-!
# Which settings are refused, and how

Reading settings looks at a mapping and changes nothing. Names come first, then values, then the
extensions that are asked for, and the first of them that is wrong is refused. A refusal is a
ValueError that names what is wrong. Unknown names are joined as texts, and a refused value is
inspected, so there are settings that are refused without the ValueError: `Config.Misreported` lists
them. A document is read in the same way from whatever its text was loaded to.
-/

namespace ChainScript

open Run (on)

/-! ## Texts in messages -/

/-- The one thing that can go wrong with the texts of values is that a value is no text. -/
theorem allTexts_cases (vs : List Value) :
    (∃ texts, allTexts vs = .ok texts) ∧ (∀ v ∈ vs, ∃ s, v = .str s)
      ∨ allTexts vs = .error .notText ∧ ∃ v ∈ vs, ∀ s, v ≠ .str s := by
  induction vs with
  | nil => exact .inl ⟨⟨[], rfl⟩, fun v hv => absurd hv List.not_mem_nil⟩
  | cons v rest ih =>
    cases v with
    | str s =>
      obtain ⟨⟨texts, htexts⟩, hall⟩ | ⟨herror, v, hv, hno⟩ := ih
      · refine .inl ⟨⟨s :: texts, by simp only [allTexts, htexts]; rfl⟩, ?_⟩
        intro v hv
        obtain rfl | hv := List.mem_cons.mp hv
        · exact ⟨s, rfl⟩
        · exact hall v hv
      · exact .inr ⟨by simp only [allTexts, herror]; rfl, v, List.mem_cons_of_mem _ hv, hno⟩
    | _ => exact .inr ⟨rfl, _, List.mem_cons_self, nofun⟩

/-- No failure to print is a ValueError. -/
theorem PrintFailure.kind_ne_valueError (failure : PrintFailure) : failure.kind ≠ .valueError := by
  cases failure <;> nofun

/-- The slots that a value gives as a mapping, if it is one. Null gives none. -/
def Heap.settings? (h : Heap) : Value → Option Slots
  | .null => some .empty
  | data =>
    match h.objectOf? data with
    | some (.dict entries) | some (.proxy entries) | some (.record _ entries _ _) => some entries
    | _ => none

/-- What a loader can make of a text. Of the mappings it gives dictionaries alone. -/
inductive Heap.Loaded (h : Heap) : Option Value → Prop
  | malformed : Loaded h none
  | null : Loaded h (some .null)
  | dict {v : Value} {entries : Slots} (hv : h.objectOf? v = some (.dict entries)) : Loaded h (some v)
  | other {v : Value} (hv : h.settings? v = none) : Loaded h (some v)

namespace Config

/-! ## What is wrong with settings -/

/-- The names of slots that are no settings. -/
def unknownNames (slots : Slots) : List Value :=
  (Slots.labels slots).filter fun v => !(settingNames.map Value.str).contains v

/-- What a mapping gives in the place of a flag. -/
def refusedFlag? (slots : Slots) (name : String) : Option Value :=
  match setting? slots name with
  | none | some (.bool _) => none
  | some v => some v

/-- What a mapping gives in the place of a list of extensions. -/
def refusedExtensions? (h : Heap) (slots : Slots) : Option Value :=
  match setting? slots "builtins" with
  | none | some .null => none
  | some v =>
    match h.objectOf? v with
    | some (.list _) | some (.tuple _) => none
    | _ => some v

/-- The first of the values of a mapping that is refused. -/
def refused? (h : Heap) (slots : Slots) : Option Value :=
  ((refusedFlag? slots "strict").or (refusedFlag? slots "debug")).or (refusedExtensions? h slots)

/-- The extensions that a mapping asks for, where it gives a list of them or leaves them out. -/
def requested (h : Heap) (slots : Slots) : List Value :=
  match setting? slots "builtins" with
  | none => Registry.builtinNames.map .str
  | some v =>
    match h.objectOf? v with
    | some (.list items) | some (.tuple items) => items
    | _ => []

/-- Those of given extensions that are not built in. -/
def unknownExtensions (asked : List Value) : List Value :=
  asked.filter fun v => !(Registry.builtinNames.map Value.str).contains v

/-- Nothing is wrong with the settings that a mapping gives. -/
structure Accepted (h : Heap) (slots : Slots) : Prop where
  names : unknownNames slots = []
  values : refused? h slots = none
  extensions : unknownExtensions (requested h slots) = []

/-- The settings are refused, but what is wrong with them cannot be said: a name that is joined with
other text is no text, or the value that is refused cannot be inspected. -/
inductive Misreported (h : Heap) (slots : Slots) : Prop
  | name {v : Value} (hv : v ∈ unknownNames slots) (htext : ∀ s, v ≠ .str s)
  | value {v : Value} {failure : PrintFailure} (hnames : unknownNames slots = [])
    (hv : refused? h slots = some v) (hshown : h.inspect v = .error failure)
  | extension {v : Value} (hnames : unknownNames slots = []) (hvalues : refused? h slots = none)
    (hv : v ∈ unknownExtensions (requested h slots)) (htext : ∀ s, v ≠ .str s)

/-- Settings that a runner can be set up by: both flags are truth values, and every extension is one
of those that are built in. -/
structure Sound (config : Config) : Prop where
  strict : ∃ b, config.strict = .bool b
  debug : ∃ b, config.debug = .bool b
  builtins : ∀ v ∈ config.builtins, v ∈ Registry.builtinNames.map Value.str

/-! ## Refusals -/

variable {α β : Type} {m : Machine} {misreported : Prop}

/-- An action ended in a refusal that left the machine as it is: a ValueError, unless what is wrong
is misreported. -/
def Refused (ending : Except Stop α × Machine) (m : Machine) (misreported : Prop) : Prop :=
  ∃ fault, ending = (.error (.fault fault), m) ∧ (fault.kind = .valueError ↔ ¬misreported)

/-- What refuses an action refuses the one that would go on from it. -/
theorem Refused.bind {x : Run α} {f : α → Run β} (hx : Refused (on x m) m misreported) :
    Refused (on (x >>= f) m) m misreported := by
  obtain ⟨fault, hfault, hkind⟩ := hx
  exact ⟨fault, Run.on_bind_error hfault, hkind⟩

/-- What makes a refusal misreported may be put in other words. -/
theorem Refused.congr {ending : Except Stop α × Machine} {misreported' : Prop}
    (hr : Refused ending m misreported) (hiff : misreported ↔ misreported') :
    Refused ending m misreported' := by
  obtain ⟨fault, hfault, hkind⟩ := hr
  exact ⟨fault, hfault, hkind.trans (not_congr hiff)⟩

/-- A ValueError with a message of its own is never misreported. -/
theorem refused_fail {fault : Fault} {text : Option String} (ht : fault.message m.heap = .ok text)
    (hkind : fault.kind = .valueError) (hno : ¬misreported) :
    Refused (on (Run.fail fault : Run α) m) m misreported :=
  ⟨fault, by rw [Run.on_fail, Fault.arising_of_message ht], iff_of_true hkind hno⟩

/-- A ValueError that inspects a value is misreported where the value cannot be inspected. -/
theorem refused_value {fault : Fault} {v : Value} (text : String → String)
    (ht : fault.message m.heap = (m.heap.inspect v).map fun shown => some (text shown))
    (hkind : fault.kind = .valueError) :
    Refused (on (Run.fail fault : Run α) m) m (∃ failure, m.heap.inspect v = .error failure) := by
  cases hshown : m.heap.inspect v with
  | ok shown =>
    have hmessage : fault.message m.heap = .ok (some (text shown)) := by rw [ht, hshown]; rfl
    exact refused_fail hmessage hkind nofun
  | error failure =>
    have hmessage : fault.message m.heap = .error failure := by rw [ht, hshown]; rfl
    have harising : fault.arising m.heap = .messageLost fault failure := by
      simp only [Fault.arising, hmessage]
    have hlost : (Fault.messageLost fault failure).kind ≠ .valueError := failure.kind_ne_valueError
    exact ⟨.messageLost fault failure, by rw [Run.on_fail, harising],
      iff_of_false hlost fun hno => hno ⟨failure, rfl⟩⟩

/-- A ValueError that joins names is misreported where one of them is no text. -/
theorem refused_names (fault : List String → Fault) (names : List Value)
    (ht : ∀ texts, ∃ text, (fault texts).message m.heap = .ok text)
    (hkind : ∀ texts, (fault texts).kind = .valueError) :
    Refused (on (do Run.fail (fault (← Run.ofPrinted (allTexts names))) : Run α) m) m
      (∃ v ∈ names, ∀ s, v ≠ .str s) := by
  obtain ⟨⟨texts, htexts⟩, hall⟩ | ⟨herror, hsome⟩ := allTexts_cases names
  · have hno : ¬∃ v ∈ names, ∀ s, v ≠ .str s := by
      rintro ⟨v, hv, hno⟩
      obtain ⟨s, hs⟩ := hall v hv
      exact hno s hs
    obtain ⟨text, htext⟩ := ht texts
    have hjoined : on (Run.ofPrinted (allTexts names)) m = (.ok texts, m) := by
      rw [Run.on_ofPrinted, htexts]; rfl
    rw [Run.on_bind_ok hjoined]
    exact refused_fail htext (hkind texts) hno
  · have hfailed : on (Run.ofPrinted (allTexts names)) m
        = (.error (.fault (Fault.unprintable .notText)), m) := by
      rw [Run.on_ofPrinted, herror]; rfl
    rw [Run.on_bind_error hfailed]
    have hkind : (Fault.unprintable .notText).kind ≠ .valueError := nofun
    exact ⟨_, rfl, iff_of_false hkind fun hno => hno hsome⟩

/-! ## The steps of reading -/

/-- Names that are all known pass. -/
theorem on_checkNames {slots : Slots} (hnames : unknownNames slots = []) :
    on (checkNames slots) m = (.ok (), m) := by
  unfold unknownNames at hnames
  simp only [checkNames, hnames]
  rfl

/-- Unknown names are refused, and misreported if one of them is no text. -/
theorem refused_checkNames {slots : Slots} (hnames : unknownNames slots ≠ []) :
    Refused (on (checkNames slots) m) m (∃ v ∈ unknownNames slots, ∀ s, v ≠ .str s) := by
  obtain ⟨v, rest, hlist⟩ := List.exists_cons_of_ne_nil hnames
  rw [hlist]
  unfold unknownNames at hlist
  simp only [checkNames, hlist]
  exact refused_names (fun names => .unknownSettings (names.mergeSort fun a b => !(b < a)))
    (v :: rest) (fun _ => ⟨_, rfl⟩) fun _ => rfl

/-- A flag that is a truth value or is left out is read. -/
theorem on_flag {slots : Slots} {name : String} (hflag : refusedFlag? slots name = none) :
    ∃ b, on (flag slots name) m = (.ok (.bool b), m) := by
  unfold refusedFlag? at hflag
  split at hflag
  next hnone => exact ⟨false, by rw [flag, hnone]; rfl⟩
  next b hbool => exact ⟨b, by rw [flag, hbool]; rfl⟩
  next => cases hflag

/-- A flag that is no truth value is refused, and misreported if it cannot be shown. -/
theorem refused_flag {slots : Slots} {name : String} {v : Value}
    (hflag : refusedFlag? slots name = some v) :
    Refused (on (flag slots name) m) m (∃ failure, m.heap.inspect v = .error failure) := by
  have hrefused : Refused (on (Run.fail (.flagNotBool name v) : Run Value) m) m
      (∃ failure, m.heap.inspect v = .error failure) :=
    refused_value (fun shown => "\x27" ++ name ++ "\x27 must be a boolean, got " ++ shown)
      (by simp only [Fault.message]; cases m.heap.inspect v <;> rfl) rfl
  unfold refusedFlag? at hflag
  split at hflag
  next => cases hflag
  next => cases hflag
  next w hno hw =>
    cases hflag
    rw [flag, hw]
    cases v with
    | bool b => exact (hno b rfl).elim
    | _ => exact hrefused

/-- Extensions that are listed properly are those that were requested. -/
theorem on_extensions {slots : Slots} (hlist : refusedExtensions? m.heap slots = none) :
    on (extensions slots) m = (.ok (requested m.heap slots), m) := by
  unfold refusedExtensions? at hlist
  split at hlist
  next hnone => rw [extensions, requested, hnone]; rfl
  next hnull => rw [extensions, requested, hnull]; rfl
  next v hno hv =>
    split at hlist
    next items hitems =>
      rw [extensions, requested, hv]
      simp only [Run.on_bind, Run.on_heap, hitems, Run.on_pure]
    next items hitems =>
      rw [extensions, requested, hv]
      simp only [Run.on_bind, Run.on_heap, hitems, Run.on_pure]
    next => cases hlist

/-- Others are refused, and misreported if they cannot be shown. -/
theorem refused_extensions {slots : Slots} {v : Value}
    (hlist : refusedExtensions? m.heap slots = some v) :
    Refused (on (extensions slots) m) m (∃ failure, m.heap.inspect v = .error failure) := by
  have hrefused : Refused (on (Run.fail (.extensionsNotList v) : Run (List Value)) m) m
      (∃ failure, m.heap.inspect v = .error failure) :=
    refused_value (fun shown => "\x27builtins\x27 must be a list, got " ++ shown)
      (by simp only [Fault.message]; cases m.heap.inspect v <;> rfl) rfl
  unfold refusedExtensions? at hlist
  split at hlist
  next => cases hlist
  next => cases hlist
  next w hno hw =>
    split at hlist
    next => cases hlist
    next => cases hlist
    next hlistless htupleless =>
      cases hlist
      rw [extensions, hw]
      simp only [Run.on_bind, Run.on_heap]
      exact hrefused

/-- A configuration passes if all its extensions are known. -/
theorem on_check {config : Config} (hknown : unknownExtensions config.builtins = []) :
    on (check config) m = (.ok config, m) := by
  unfold unknownExtensions at hknown
  simp only [check, hknown]
  rfl

/-- It is refused if not, and misreported if an unknown one is no text. -/
theorem refused_check {config : Config} (hknown : unknownExtensions config.builtins ≠ []) :
    Refused (on (check config) m) m
      (∃ v ∈ unknownExtensions config.builtins, ∀ s, v ≠ .str s) := by
  obtain ⟨v, rest, hlist⟩ := List.exists_cons_of_ne_nil hknown
  rw [hlist]
  unfold unknownExtensions at hlist
  simp only [check, hlist]
  exact refused_names .unknownExtensions (v :: rest) (fun _ => ⟨_, rfl⟩) fun _ => rfl

/-- A mapping counts as true unless it has no entries. -/
theorem isTruthy_of_settings? {h : Heap} {data : Value} {slots : Slots}
    (hdata : h.settings? data = some slots) : h.isTruthy data = !Table.isEmpty slots := by
  cases data with
  | null => cases hdata; rfl
  | object id =>
    simp only [Heap.settings?, Heap.objectOf?] at hdata
    split at hdata
    next hobject => cases hdata; simp only [Heap.isTruthy, hobject]
    next hobject => cases hdata; simp only [Heap.isTruthy, hobject]
    next hobject => cases hdata; simp only [Heap.isTruthy, hobject]
    next => cases hdata
  | _ => cases hdata

/-- What a mapping with entries gives is read from it as it is. -/
theorem on_entriesOf {data : Value} {slots : Slots} (hdata : m.heap.settings? data = some slots)
    (hsome : Table.isEmpty slots = false) : on (Invoke.entriesOf data) m = (.ok slots, m) := by
  rw [Invoke.entriesOf, Run.on_bind_ok (Run.on_heap m)]
  unfold Heap.settings? at hdata
  split at hdata
  next => cases hdata; cases hsome
  split at hdata
  next hobject => cases hdata; rw [hobject]; rfl
  next hobject => cases hdata; rw [hobject]; rfl
  next hobject => cases hdata; rw [hobject]; rfl
  next => cases hdata

/-- A mapping is opened, the names are checked, and the values are read. -/
theorem on_ofMapping {data : Value} {slots : Slots} (hdata : m.heap.settings? data = some slots) :
    on (ofMapping data) m = on (do checkNames slots; ofValues slots) m := by
  rw [ofMapping, Run.on_bind_ok (Run.on_heap m), isTruthy_of_settings? hdata]
  cases hempty : Table.isEmpty slots with
  | true =>
    -- A mapping without entries is not opened, and gives as much.
    have hnone : slots = .empty := Table.eq_of_entries (List.isEmpty_iff.mp hempty)
    rw [hnone]
    rfl
  | false => exact Run.on_bind_ok (on_entriesOf hdata hempty)

/-- The first value that is refused refuses them all. If none is, the extensions are left to check.
-/
theorem values_cases (slots : Slots) (m : Machine) :
    (∃ v, refused? m.heap slots = some v
        ∧ Refused (on (ofValues slots) m) m (∃ failure, m.heap.inspect v = .error failure))
      ∨ refused? m.heap slots = none ∧ ∃ strict debug,
        on (ofValues slots) m
          = on (check ⟨.bool strict, .bool debug, requested m.heap slots⟩) m := by
  unfold refused? ofValues
  cases hstrict : refusedFlag? slots "strict" with
  | some v => exact .inl ⟨v, rfl, (refused_flag hstrict).bind⟩
  | none =>
    obtain ⟨strict, hstricton⟩ := on_flag (m := m) hstrict
    rw [Run.on_bind_ok hstricton]
    cases hdebug : refusedFlag? slots "debug" with
    | some v => exact .inl ⟨v, rfl, (refused_flag hdebug).bind⟩
    | none =>
      obtain ⟨debug, hdebugon⟩ := on_flag (m := m) hdebug
      rw [Run.on_bind_ok hdebugon]
      cases hlist : refusedExtensions? m.heap slots with
      | some v => exact .inl ⟨v, rfl, (refused_extensions hlist).bind⟩
      | none => exact .inr ⟨rfl, strict, debug, by rw [Run.on_bind_ok (on_extensions hlist)]⟩

/-! ## Reading settings -/

/-- How reading settings ends. Accepted ones come to a sound configuration, and all others to a
refusal. Nothing changes. -/
inductive Settled (accepted misreported : Prop) (m : Machine) (ending : Except Stop Config × Machine) :
    Prop
  | sound {config : Config} (ha : accepted) (hm : ¬misreported) (hconfig : config.Sound)
    (hon : ending = (.ok config, m))
  | refused (ha : ¬accepted) (hr : Refused ending m misreported)

/-- What is misreported is not accepted. -/
theorem Misreported.not_accepted {h : Heap} {slots : Slots} (hm : Misreported h slots) :
    ¬Accepted h slots := by
  intro ha
  cases hm with
  | name hv => rw [ha.names] at hv; cases hv
  | value _ hv => rw [ha.values] at hv; cases hv
  | extension _ _ hv => rw [ha.extensions] at hv; cases hv

/-- Where the names are known, the first value that is refused is what can be misreported. -/
theorem misreported_value {h : Heap} {slots : Slots} {v : Value} (hnames : unknownNames slots = [])
    (hv : refused? h slots = some v) :
    (∃ failure, h.inspect v = .error failure) ↔ Misreported h slots := by
  constructor
  · rintro ⟨failure, hfailure⟩
    exact .value hnames hv hfailure
  · intro hm
    cases hm with
    | name hname => rw [hnames] at hname; cases hname
    | value _ hw hfailure => rw [hv] at hw; cases hw; exact ⟨_, hfailure⟩
    | extension _ hnone => rw [hv] at hnone; cases hnone

/-- Where the names are known and the values are well formed, an extension can be misreported. -/
theorem misreported_extension {h : Heap} {slots : Slots} (hnames : unknownNames slots = [])
    (hvalues : refused? h slots = none) :
    (∃ v ∈ unknownExtensions (requested h slots), ∀ s, v ≠ .str s) ↔ Misreported h slots := by
  constructor
  · rintro ⟨v, hv, htext⟩
    exact .extension hnames hvalues hv htext
  · intro hm
    cases hm with
    | name hname => rw [hnames] at hname; cases hname
    | value _ hw => rw [hvalues] at hw; cases hw
    | extension _ _ hv htext => exact ⟨_, hv, htext⟩

/-- A name that is no setting is what can be misreported. -/
theorem misreported_name {h : Heap} {slots : Slots} (hnames : unknownNames slots ≠ []) :
    (∃ v ∈ unknownNames slots, ∀ s, v ≠ .str s) ↔ Misreported h slots := by
  constructor
  · rintro ⟨v, hv, htext⟩
    exact .name hv htext
  · intro hm
    cases hm with
    | name hv htext => exact ⟨_, hv, htext⟩
    | value hnone | extension hnone => exact (hnames hnone).elim

/-- Extensions that are all built in make a sound configuration of two truth values. -/
theorem sound_of_known {strict debug : Bool} {asked : List Value}
    (hknown : unknownExtensions asked = []) : Sound ⟨.bool strict, .bool debug, asked⟩ where
  strict := ⟨strict, rfl⟩
  debug := ⟨debug, rfl⟩
  builtins v hv := by
    have hall := List.filter_eq_nil_iff.mp hknown v hv
    simpa using hall

/-- The settings of a mapping are read: its names first, then its values, then the extensions. -/
theorem settled_ofMapping {data : Value} {slots : Slots} (hdata : m.heap.settings? data = some slots) :
    Settled (Accepted m.heap slots) (Misreported m.heap slots) m (on (ofMapping data) m) := by
  rw [on_ofMapping hdata]
  by_cases hnames : unknownNames slots = []
  · rw [Run.on_bind_ok (on_checkNames hnames)]
    obtain ⟨v, hv, hrefused⟩ | ⟨hvalues, strict, debug, hvalueson⟩ := values_cases slots m
    · have hno : ¬Accepted m.heap slots := fun ha => by rw [ha.values] at hv; cases hv
      exact .refused hno (hrefused.congr (misreported_value hnames hv))
    · rw [hvalueson]
      by_cases hknown : unknownExtensions (requested m.heap slots) = []
      · have ha : Accepted m.heap slots := ⟨hnames, hvalues, hknown⟩
        exact .sound ha (fun hm => hm.not_accepted ha) (sound_of_known hknown) (on_check hknown)
      · exact .refused (fun ha => hknown ha.extensions)
          ((refused_check hknown).congr (misreported_extension hnames hvalues))
  · exact .refused (fun ha => hnames ha.names)
      ((refused_checkNames hnames).congr (misreported_name hnames)).bind

/-- Something of what was loaded from a text holds of the slots that it gives as a mapping. -/
def OfLoaded (h : Heap) (loaded : Option Value) (P : Heap → Slots → Prop) : Prop :=
  ∃ slots, loaded.bind h.settings? = some slots ∧ P h slots

/-- Of the documents that are not null, dictionaries are read. -/
theorem on_ofLoaded {v : Value} (hv : v ≠ .null) :
    on (ofLoaded (some v)) m = on (match m.heap.objectOf? v with
      | some (.dict _) => ofMapping v
      | _ => Run.fail .yamlNotMapping) m := by
  cases v with
  | null => exact (hv rfl).elim
  | _ => rfl

/-- What was loaded is read as a mapping, or refused as none with a ValueError. -/
theorem settled_ofLoaded {loaded : Option Value} (hl : m.heap.Loaded loaded) :
    Settled (OfLoaded m.heap loaded Accepted) (OfLoaded m.heap loaded Misreported) m
      (on (ofLoaded loaded) m) := by
  have hnone : loaded.bind m.heap.settings? = none →
      ∀ P, ¬OfLoaded m.heap loaded P := by
    rintro hnone P ⟨slots, hslots, -⟩
    rw [hnone] at hslots
    cases hslots
  have hmapping : ∀ {data slots}, loaded = some data → m.heap.settings? data = some slots →
      Settled (OfLoaded m.heap loaded Accepted) (OfLoaded m.heap loaded Misreported) m
        (on (ofMapping data) m) := by
    rintro data slots rfl hdata
    have hof : ∀ P : Heap → Slots → Prop, OfLoaded m.heap (some data) P ↔ P m.heap slots := by
      intro P
      simp only [OfLoaded, Option.bind_some, hdata, Option.some.injEq, exists_eq_left']
    simp only [hof]
    exact settled_ofMapping hdata
  cases hl with
  | malformed => exact .refused (hnone rfl _) (refused_fail rfl rfl (hnone rfl _))
  | null => exact hmapping rfl rfl
  | @dict v entries hv =>
    have hne : v ≠ .null := by rintro rfl; cases hv
    have hslots : m.heap.settings? v = some entries := by simp only [Heap.settings?, hv]
    have hread : on (ofLoaded (some v)) m = on (ofMapping v) m := by rw [on_ofLoaded hne, hv]
    rw [hread]
    exact hmapping rfl hslots
  | @other v hv =>
    have hne : v ≠ .null := by rintro rfl; cases hv
    have hread : on (ofLoaded (some v)) m = on (Run.fail .yamlNotMapping) m := by
      rw [on_ofLoaded hne]
      split
      next hobject =>
        -- A dictionary would give slots.
        simp only [Heap.settings?, hobject] at hv
        cases hv
      next => rfl
    rw [hread]
    exact .refused (hnone hv _) (refused_fail rfl rfl (hnone hv _))

/-- What the reader of documents makes is null, a dictionary, or no mapping at all. -/
theorem loaded_of_ofDocument {document : Yaml} {v : Value} {m' : Machine}
    (hon : on (ofDocument document) m = (.ok v, m')) : m'.heap.Loaded (some v) := by
  cases document with
  | null => cases hon; exact .null
  | bool b => cases hon; exact .other rfl
  | int n => cases hon; exact .other rfl
  | float x => cases hon; exact .other rfl
  | str s => cases hon; exact .other rfl
  | list items =>
    obtain ⟨values, m₁, -, hmade⟩ := Run.exists_of_on_bind hon
    cases hmade
    have hlist : (m₁.heap.alloc (.list values)).2.objectOf? (.object m₁.heap.size)
        = some (.list values) := by rw [Heap.objectOf?, Heap.object?_alloc, if_pos rfl]
    refine .other ?_
    show Heap.settings? (m₁.heap.alloc (.list values)).2 _ = none
    simp only [Heap.settings?, hlist]
  | mapping entries =>
    obtain ⟨slots, m₁, -, hmade⟩ := Run.exists_of_on_bind hon
    cases hmade
    have hdict : (m₁.heap.alloc (.dict slots)).2.objectOf? (.object m₁.heap.size)
        = some (.dict slots) := by rw [Heap.objectOf?, Heap.object?_alloc, if_pos rfl]
    exact .dict hdict

/-- The reader of documents makes something of every text. -/
theorem load_yields (text : String) (m : Machine) :
    Run.Yields (load text) m fun loaded m' => m'.heap.Loaded loaded := by
  unfold load
  cases Yaml.read? text with
  | none => exact ⟨none, m, rfl, .malformed⟩
  | some document =>
    cases hdocument : on (ofDocument document) m with
    | mk ending m' =>
      cases ending with
      | ok v =>
        refine ⟨some v, m', ?_, loaded_of_ofDocument hdocument⟩
        simp only [Run.on_tryCatch, Run.on_bind_ok hdocument, Run.on_pure]
      | error stop =>
        refine ⟨none, m', ?_, .malformed⟩
        simp only [Run.on_tryCatch, Run.on_bind_error hdocument, Run.on_pure]

/-- The settings that a document gives are read as those that it was loaded as: a sound
configuration exactly when nothing is wrong with them, and otherwise a refusal. -/
theorem settled_ofYaml (text : String) (m : Machine) :
    ∃ loaded m', m'.heap.Loaded loaded
      ∧ Settled (OfLoaded m'.heap loaded Accepted) (OfLoaded m'.heap loaded Misreported) m'
          (on (ofYaml text) m) := by
  obtain ⟨loaded, m', hload, hl⟩ := load_yields text m
  refine ⟨loaded, m', hl, ?_⟩
  rw [ofYaml, ofYamlBy, Run.on_bind_ok hload]
  exact settled_ofLoaded hl

/-- On every machine, reading settings from a mapping ends in a sound configuration exactly when
nothing is wrong with them, and otherwise in a refusal that is a ValueError exactly when it is not
misreported. So does reading them from a text, whatever loads it. -/
theorem settings_are_sound_or_refused (m : Machine) :
    (∀ (data : Value) (slots : Slots), m.heap.settings? data = some slots →
      Settled (Accepted m.heap slots) (Misreported m.heap slots) m (on (ofMapping data) m))
    ∧ ∀ (load : String → Run (Option Value)) (text : String) (m' : Machine)
        (loaded : Option Value), on (load text) m = (.ok loaded, m') → m'.heap.Loaded loaded →
      Settled (OfLoaded m'.heap loaded Accepted) (OfLoaded m'.heap loaded Misreported) m'
        (on (ofYamlBy load text) m) := by
  refine ⟨fun data slots hdata => settled_ofMapping hdata, ?_⟩
  intro load text m' loaded hload hl
  rw [ofYamlBy, Run.on_bind_ok hload]
  exact settled_ofLoaded hl

/-- A machine with a dictionary of one entry. -/
def withSetting (key : Key) (name v : Value) : Machine :=
  { Machine.blank with heap := (Machine.blank.heap.alloc (.dict (Slots.put .empty key name v))).2 }

/-- A flag is read from a dictionary, and a name that is text and no setting is refused. -/
theorem flag_is_read_and_colour_refused :
    (∃ config, on (ofMapping (.object 4)) (withSetting (.str "strict") (.str "strict") (.bool true))
        = (.ok config, withSetting (.str "strict") (.str "strict") (.bool true)) ∧ config.Sound)
    ∧ ∃ fault, (on (ofYamlBy (fun _ => pure (some (.object 4))) "colour: red")
        (withSetting (.str "colour") (.str "colour") (.str "red"))).1 = .error (.fault fault)
      ∧ fault.kind = .valueError := by
  constructor
  · obtain ⟨hmapping, -⟩ :=
      settings_are_sound_or_refused (withSetting (.str "strict") (.str "strict") (.bool true))
    cases hmapping (.object 4) _ rfl with
    | sound _ _ hconfig hon => exact ⟨_, hon, hconfig⟩
    | refused hno => exact (hno ⟨by decide, by decide, by decide⟩).elim
  · obtain ⟨-, htext⟩ :=
      settings_are_sound_or_refused (withSetting (.str "colour") (.str "colour") (.str "red"))
    have hl : (withSetting (.str "colour") (.str "colour") (.str "red")).heap.Loaded
        (some (.object 4)) := .dict rfl
    cases htext (fun _ => pure (some (.object 4))) "colour: red" _ _ rfl hl with
    | sound ha =>
      obtain ⟨slots, hslots, ha⟩ := ha
      cases hslots
      exact absurd ha.names (by decide)
    | refused _ hr =>
      obtain ⟨fault, hfault, hkind⟩ := hr
      refine ⟨fault, congrArg Prod.fst hfault, hkind.mpr ?_⟩
      rintro ⟨slots, hslots, hm⟩
      cases hslots
      obtain ⟨v, hv, hno⟩ := (misreported_name (by decide)).mpr hm
      obtain rfl : v = .str "colour" := List.mem_singleton.mp hv
      exact hno _ rfl

/-- A dictionary with a number for a name is refused, but not with a ValueError. -/
theorem number_is_no_name :
    ((withSetting (.number 1) (.int 1) (.str "x")).heap.settings? (.object 4)).isSome = true
    ∧ (on (ofMapping (.object 4)) (withSetting (.number 1) (.int 1) (.str "x"))).1
      = .error (.fault (.native .typeError)) :=
  ⟨rfl, rfl⟩

end Config

end ChainScript
