import Depot.Action
import Depot.Catalog.Elements
import Depot.Proofs.FiniteMap
import Depot.Proofs.World.Growth
/-!
# Parameters of the wrong type

The implementations of elements read their parameters one after the other, each as a value of its
type. A text or a number of seconds that is given as anything else is an error, whatever the other
parameters are. A truth value that is given as anything else counts as not given, and so an element
can be written although its parameters say something else than that it can.
-/

namespace Depot

open Json

variable {p : Plugins} {o : Object} {s : Source} {v : Value} {key key' : String}

namespace Parameters

/-! ### Types -/

/-- The types of parameters. -/
inductive Shape where
  | text
  | truth
  | count
deriving DecidableEq

/-- The values of a type. -/
inductive Shape.Fits : Shape → Value → Prop where
  | text (s : String) : Fits .text (.string s)
  | truth (b : Bool) : Fits .truth (.bool b)
  | count (n : Integer) (h : 0 ≤ n.val) : Fits .count (.number (.int n))

theorem fits_text : Shape.text.Fits v ↔ v.string?.isSome = true := by
  constructor
  · rintro ⟨⟩
    rfl
  · cases v <;> simp [Value.string?]
    exact .text _

theorem fits_truth : Shape.truth.Fits v ↔ v.bool?.isSome = true := by
  constructor
  · rintro ⟨⟩
    rfl
  · cases v <;> simp [Value.bool?]
    exact .truth _

theorem fits_count : Shape.count.Fits v ↔ v.nat?.isSome = true := by
  constructor
  · rintro ⟨⟩
    case count n hn => simp [Value.nat?, Number.nat?, hn]
  · intro h
    rcases v with _ | _ | ⟨n | x⟩ | _ | _ | _
    case number.int =>
      refine .count n ?_
      by_contra hn
      simp [Value.nat?, Number.nat?, hn] at h
    all_goals simp [Value.nat?, Number.nat?] at h

instance (shape : Shape) (v : Value) : Decidable (shape.Fits v) :=
  match shape with
  | .text  => decidable_of_iff' _ fits_text
  | .truth => decidable_of_iff' _ fits_truth
  | .count => decidable_of_iff' _ fits_count

/-- The type of the parameter with a name. -/
def shape : String → Shape
  | "readonly"     => .truth
  | "timeout_secs" => .count
  | _              => .text

theorem shape_eq_truth : shape key = .truth ↔ key = "readonly" := by
  unfold shape
  split <;> simp_all

/-- A parameter has a value that is neither null nor of its type. -/
def Mistyped (o : Object) (key : String) : Prop :=
  ∃ v, Assoc.get? key o = some v ∧ v ≠ .null ∧ ¬ (shape key).Fits v

/-! ### Reading one parameter -/

theorem not_mistyped_of_text? {t : Option String} (hs : shape key = .text)
    (h : text? o key = .ok t) : ¬ Mistyped o key := by
  rintro ⟨v, hget, hnull, hfit⟩
  rw [hs] at hfit
  cases v <;> simp [text?, hget] at h hnull
  exact hfit (.text _)

theorem fullText_eq_ok {t : String} :
    fullText o key = .ok t ↔ text? o key = .ok (some t) ∧ t ≠ "" := by
  unfold fullText
  rw [Result.bind_eq_ok]
  constructor
  · rintro ⟨_ | t', ht, h⟩
    · simp at h
    · by_cases he : t' = "" <;> simp [he] at h
      exact h ▸ ⟨ht, he⟩
  · rintro ⟨ht, he⟩
    exact ⟨_, ht, by simp [he]⟩

theorem not_mistyped_of_content {content : Bytes} (hs : shape key = .text)
    (h : Parameters.content o key = .ok content) : ¬ Mistyped o key := by
  rintro ⟨v, hget, hnull, hfit⟩
  rw [hs] at hfit
  cases v <;> simp [Parameters.content, hget] at h hnull
  exact hfit (.text _)

theorem not_mistyped_of_seconds {default n : UInt64} (hs : shape key = .count)
    (h : seconds o key default = .ok n) : ¬ Mistyped o key := by
  rintro ⟨v, hget, hnull, hfit⟩
  have hnat : v.nat? = none := by simpa [hs, fits_count] using hfit
  cases v <;> simp [seconds, hget, hnat] at h hnull

/-- A truth value of the wrong type means no. -/
theorem Mistyped.flag (h : Mistyped o key) (hs : shape key = .truth) :
    Parameters.flag o key = false := by
  obtain ⟨v, hget, -, hfit⟩ := h
  have hbool : v.bool? = none := by simpa [hs, fits_truth] using hfit
  simp [Parameters.flag, hget, hbool]

/-! ### Leaving a parameter out -/

@[simp] theorem flag_erase : flag (Assoc.erase key o) key = false := by
  simp [flag, Assoc.get?_erase]

variable (h : key ≠ key')

include h

theorem text?_erase : text? (Assoc.erase key' o) key = text? o key := by
  simp [text?, Assoc.get?_erase, h]

theorem fullText_erase : fullText (Assoc.erase key' o) key = fullText o key := by
  simp [fullText, text?_erase h]

theorem content_erase : content (Assoc.erase key' o) key = content o key := by
  simp [content, Assoc.get?_erase, h]

end Parameters

/-! ### Reading all of them -/

namespace Source

open Parameters

theorem memoryOfConfig_eq_ok : memoryOfConfig o = .ok s ↔
    ∃ content type, Parameters.content o "bytes" = .ok content ∧
      text? o "content_type" = .ok type ∧ s = .memory content type (flag o "readonly") := by
  simp only [memoryOfConfig, Result.bind_eq_ok, Result.pure_eq_ok, exists_and_left]

theorem fileOfConfig_eq_ok : fileOfConfig o = .ok s ↔
    ∃ path type, fullText o "filepath" = .ok path ∧
      text? o "explicit_mimetype" = .ok type ∧ s = .file path type (flag o "readonly") := by
  simp only [fileOfConfig, Result.bind_eq_ok, Result.pure_eq_ok, exists_and_left]

theorem backendOfConfig_eq_ok {backends : BackendNames} : backendOfConfig backends o = .ok s ↔
    ∃ name locator ref type, text? o "backend" = .ok name ∧
      fullText o "locator" = .ok locator ∧
      backends.get? (name.getD defaultBackend) = some ref ∧
      text? o "content_type" = .ok type ∧
      s = .backend (name.getD defaultBackend) ref locator type (flag o "readonly") := by
  unfold backendOfConfig
  simp only [Result.bind_eq_ok]
  constructor
  · rintro ⟨name, hn, locator, hl, h⟩
    cases hr : backends.get? (name.getD defaultBackend) with
    | none => simp [hr] at h
    | some ref =>
      simp only [hr, Result.bind_eq_ok, Result.pure_eq_ok] at h
      obtain ⟨type, ht, rfl⟩ := h
      exact ⟨name, locator, ref, type, hn, hl, hr, ht, rfl⟩
  · rintro ⟨name, locator, ref, type, hn, hl, hr, ht, rfl⟩
    exact ⟨name, hn, locator, hl, by simp [hr, ht]⟩

theorem of_webOfConfig (h : webOfConfig o = .ok s) : ∃ address timeout,
    text? o "url_address" = .ok (some address) ∧
      seconds o "timeout_secs" defaultTimeout = .ok timeout := by
  unfold webOfConfig at h
  obtain ⟨_ | address, ha, h⟩ := Result.bind_eq_ok.1 h
  · simp at h
  · obtain ⟨timeout, ht, -⟩ := Result.bind_eq_ok.1 h
    exact ⟨address, timeout, ha, ht⟩

/-- How the parameters of an implementation are read. -/
structure Reads (build : Object → Except ParameterError Source) (names : List String) : Prop where
  /-- There is only a source if the parameters are of their types, truth values apart. -/
  strict : ∀ {o s key}, build o = .ok s → key ∈ names → shape key ≠ .truth → ¬ Mistyped o key
  /-- A truth value that is not one might as well not be there. -/
  lenient : ∀ {o key}, key ∈ names → shape key = .truth → Mistyped o key →
    build o = build (Assoc.erase key o)
  /-- Then the source can be written. -/
  writable : ∀ {o s key}, key ∈ names → shape key = .truth → Mistyped o key → build o = .ok s →
    s.writable = true

theorem reads_memory : Reads memoryOfConfig (memoryDefaults.map (·.1)) where
  strict {o s key} h hkey hs := by
    obtain ⟨content, type, hcontent, htype, -⟩ := memoryOfConfig_eq_ok.1 h
    simp only [memoryDefaults, List.map_cons, List.map_nil, List.mem_cons, List.not_mem_nil,
      or_false] at hkey
    obtain rfl | rfl | rfl := hkey
    · exact not_mistyped_of_content rfl hcontent
    · exact not_mistyped_of_text? rfl htype
    · exact absurd rfl hs
  lenient {o key} _ hs h := by
    obtain rfl := shape_eq_truth.1 hs
    simp [memoryOfConfig, text?_erase, content_erase, h.flag hs]
  writable {o s key} _ hs h hb := by
    obtain rfl := shape_eq_truth.1 hs
    obtain ⟨content, type, -, -, rfl⟩ := memoryOfConfig_eq_ok.1 hb
    simp [Source.writable, h.flag hs]

theorem reads_file : Reads fileOfConfig (fileDefaults.map (·.1)) where
  strict {o s key} h hkey hs := by
    obtain ⟨path, type, hpath, htype, -⟩ := fileOfConfig_eq_ok.1 h
    simp only [fileDefaults, List.map_cons, List.map_nil, List.mem_cons, List.not_mem_nil,
      or_false] at hkey
    obtain rfl | rfl | rfl := hkey
    · exact not_mistyped_of_text? rfl htype
    · exact not_mistyped_of_text? rfl (fullText_eq_ok.1 hpath).1
    · exact absurd rfl hs
  lenient {o key} _ hs h := by
    obtain rfl := shape_eq_truth.1 hs
    simp [fileOfConfig, text?_erase, fullText_erase, h.flag hs]
  writable {o s key} _ hs h hb := by
    obtain rfl := shape_eq_truth.1 hs
    obtain ⟨path, type, -, -, rfl⟩ := fileOfConfig_eq_ok.1 hb
    simp [Source.writable, h.flag hs]

theorem reads_backend (backends : BackendNames) :
    Reads (backendOfConfig backends) (backendDefaults.map (·.1)) where
  strict {o s key} h hkey hs := by
    obtain ⟨name, locator, ref, type, hname, hlocator, -, htype, -⟩ := backendOfConfig_eq_ok.1 h
    simp only [backendDefaults, List.map_cons, List.map_nil, List.mem_cons, List.not_mem_nil,
      or_false] at hkey
    obtain rfl | rfl | rfl | rfl := hkey
    · exact not_mistyped_of_text? rfl hname
    · exact not_mistyped_of_text? rfl htype
    · exact not_mistyped_of_text? rfl (fullText_eq_ok.1 hlocator).1
    · exact absurd rfl hs
  lenient {o key} _ hs h := by
    obtain rfl := shape_eq_truth.1 hs
    simp [backendOfConfig, text?_erase, fullText_erase, h.flag hs]
  writable {o s key} _ hs h hb := by
    obtain rfl := shape_eq_truth.1 hs
    obtain ⟨name, locator, ref, type, -, -, -, -, rfl⟩ := backendOfConfig_eq_ok.1 hb
    simp [Source.writable, h.flag hs]

theorem reads_web : Reads webOfConfig (webDefaults.map (·.1)) where
  strict {o s key} h hkey _ := by
    obtain ⟨address, timeout, haddress, htimeout⟩ := of_webOfConfig h
    simp only [webDefaults, List.map_cons, List.map_nil, List.mem_cons, List.not_mem_nil,
      or_false] at hkey
    obtain rfl | rfl := hkey
    · exact not_mistyped_of_seconds rfl htimeout
    · exact not_mistyped_of_text? rfl haddress
  lenient {o key} hkey hs _ := by
    obtain rfl := shape_eq_truth.1 hs
    exact absurd hkey (by decide)
  writable {o s key} hkey hs _ _ := by
    obtain rfl := shape_eq_truth.1 hs
    exact absurd hkey (by decide)

end Source

namespace Plugins

open Parameters

/-- Every implementation of elements builds them from sources, from the parameters that it has
defaults for. -/
theorem exists_reads {reg : Registration (Constructor ElementRef)}
    (h : reg ∈ p.elements.registrations) : ∃ build, reg.construct = elementOf build ∧
      Source.Reads build (reg.defaults.map (·.1)) := by
  simp only [elements, List.mem_cons, List.not_mem_nil, or_false] at h
  obtain rfl | rfl | rfl | rfl := h
  · exact ⟨_, rfl, Source.reads_memory⟩
  · exact ⟨_, rfl, Source.reads_file⟩
  · exact ⟨_, rfl, Source.reads_backend p.backends⟩
  · exact ⟨_, rfl, Source.reads_web⟩

/-- The defaults are of the types of the parameters. -/
theorem not_mistyped_defaults {reg : Registration (Constructor ElementRef)}
    (h : reg ∈ p.elements.registrations) : ¬ Mistyped reg.defaults key := by
  have hall : ∀ defaults ∈ [Source.memoryDefaults, Source.fileDefaults, Source.backendDefaults,
      Source.webDefaults], ∀ m ∈ defaults, m.2 = .null ∨ (shape m.1).Fits m.2 := by
    decide
  have hdefaults : reg.defaults ∈ [Source.memoryDefaults, Source.fileDefaults,
      Source.backendDefaults, Source.webDefaults] := by
    simp only [elements, List.mem_cons, List.not_mem_nil, or_false] at h
    obtain rfl | rfl | rfl | rfl := h <;> simp
  rintro ⟨v, hget, hnull, hfit⟩
  exact (hall _ hdefaults _ (Assoc.mem_of_get? hget)).elim hnull hfit

/-- A parameter of an element, one that its implementation has a default for, is given with a
value that is neither null nor of its type. If it is a text or a number, then no element is built
and the world stays as it was. If it is a truth value, then the element is built as if it had not
been given, and can be written. -/
theorem mistyped_parameter {reg : Registration (Constructor ElementRef)}
    (hreg : reg ∈ p.elements.registrations) (hkey : key ∈ reg.defaults.map (·.1))
    (h : Mistyped o key) :
    (shape key ≠ .truth → ∀ w, ∃ e : ParameterError, reg.construct o w = (.error e.message, w)) ∧
    (shape key = .truth → reg.construct o = reg.construct (Assoc.erase key o) ∧
      ∀ w r w', reg.construct o w = (.ok r, w') → (w'.source r).writable = true) := by
  obtain ⟨build, hbuild, hreads⟩ := exists_reads hreg
  rw [hbuild]
  refine ⟨fun hs w => ?_, fun hs => ⟨?_, fun w r w' hw => ?_⟩⟩
  · cases hb : build o with
    | error e => exact ⟨e, by simp only [elementOf, hb]; rfl⟩
    | ok s    => exact absurd h (hreads.strict hb hkey hs)
  · simp only [elementOf, hreads.lenient hkey hs h]
  · cases hb : build o with
    | error e =>
      simp only [elementOf, hb] at hw
      cases hw
    | ok s =>
      simp only [elementOf, hb, World.newElement_apply] at hw
      cases hw
      rw [World.source_newElement]
      exact hreads.writable hkey hs h hb

/-- A timeout is negative, and a text says whether a file is read-only. -/
theorem mistyped_parameter_timeout :
    (∃ e : ParameterError, elementOf Source.webOfConfig
      [("timeout_secs", .number (.int ⟨-1, by decide, by decide⟩))] (.ofDisk (.fresh [] "")) =
        (.error e.message, .ofDisk (.fresh [] ""))) ∧
    elementOf Source.fileOfConfig [("filepath", .string "f"), ("readonly", .string "yes")] =
      elementOf Source.fileOfConfig [("filepath", .string "f")] := by
  have htimeout : Mistyped [("timeout_secs", .number (.int ⟨-1, by decide, by decide⟩))]
      "timeout_secs" := ⟨_, rfl, by simp, by decide⟩
  have hreadonly : Mistyped [("filepath", .string "f"), ("readonly", .string "yes")]
      "readonly" := ⟨_, rfl, by simp, by decide⟩
  constructor
  · have hreg : ⟨Source.webName, .unusable noWebReason, Source.webDefaults,
        elementOf Source.webOfConfig⟩ ∈ (Plugins.mk .empty).elements.registrations := by
      simp [elements]
    exact (mistyped_parameter hreg (by decide) htimeout).1 (by decide) _
  · have hreg : ⟨Source.fileName, .usable, Source.fileDefaults,
        elementOf Source.fileOfConfig⟩ ∈ (Plugins.mk .empty).elements.registrations := by
      simp [elements]
    exact ((mistyped_parameter hreg (by decide) hreadonly).2 rfl).1

/-- An element in memory can be written although its parameters say that it is read-only. -/
theorem readonly_text_ignored :
    Mistyped [("readonly", .string "yes")] "readonly" ∧
    (elementOf Source.memoryOfConfig [("readonly", .string "yes")]
      (.ofDisk (.fresh [] ""))).1 = .ok 0 ∧
    ((elementOf Source.memoryOfConfig [("readonly", .string "yes")]
      (.ofDisk (.fresh [] ""))).2.source 0).writable = true :=
  ⟨⟨_, rfl, by simp, by decide⟩, rfl, rfl⟩

end Plugins

end Depot
