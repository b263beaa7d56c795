import OpenApi.Loading
import OpenApi.Proofs.Disk
import OpenApi.Proofs.Json.Rests

/-!
# What loading gives

Loading tells of a document or of an error, whatever the disk holds and refuses, whatever comes back
from an address, and whatever comes of reading YAML.  It gives a document exactly if one stands at the
location.  It ends without telling only if it cannot be told whether anything is at a path, if a number
in a JSON text is too long, or if asking for an address or reading a YAML text fails in a way of its own.
-/

namespace OpenApi

/-- A path, or one of the names on it, is too long to be looked up. -/
def FilePath.IsTooLong (path : FilePath) : Prop :=
  Disk.maxPathBytes < path.text.utf8ByteSize ∨
    ∃ name ∈ path.names, Disk.maxNameBytes < name.utf8ByteSize

namespace Disk

/-- Looking up a path leads through a place. -/
def Passes (disk : Disk) (path : FilePath) (place : Place) : Prop :=
  ∃ names, names <+: path.names ∧
    disk.follow (if path.start = .here then disk.here else []) names = .ok place

/-- What may keep a look-up from telling whether anything is at a path: the path is too long, or the
system refuses to follow it at a folder on the way, for a reason that does not say that nothing is
there. -/
inductive Hinders (disk : Disk) (path : FilePath) : Obstacle → Prop
  | tooLong (long : path.IsTooLong) : Hinders disk path .tooLong
  | refused {place : Place} {refusal : Refusal} (passes : disk.Passes path place)
      (refuses : disk.permit place .follow = .error (.refused refusal))
      (serious : refusal.number ∉ [9, 40]) : Hinders disk path (.refused refusal)

variable {disk : Disk} {path : FilePath}

/-- Names that cannot be followed end where nothing can be, hold one that is too long, or lead to a
folder behind which the system lets nobody look. -/
theorem blocked_of_follow {start : Place} {names : List String} {obstacle : Obstacle}
    (failed : disk.follow start names = .error obstacle) :
    obstacle.isAbsence ∨
      (obstacle = .tooLong ∧ ∃ name ∈ names, maxNameBytes < name.utf8ByteSize) ∨
      ∃ before place, before <+: names ∧ disk.follow start before = .ok place ∧
        disk.permit place .follow = .error obstacle := by
  induction names generalizing start with
  | nil => cases failed
  | cons name rest ih =>
      -- What blocks the rest of the names, from where the first one leads, blocks them all.
      have later {next : Place} (failed : disk.follow next rest = .error obstacle)
          (leads : ∀ more, disk.follow start (name :: more) = disk.follow next more) :
          obstacle.isAbsence ∨
            (obstacle = .tooLong ∧ ∃ long ∈ name :: rest, maxNameBytes < long.utf8ByteSize) ∨
            ∃ before place, before <+: name :: rest ∧ disk.follow start before = .ok place ∧
              disk.permit place .follow = .error obstacle := by
        obtain nothing | ⟨same, long, member, tooLong⟩ | ⟨before, place, inside, led, refuses⟩ :=
          ih failed
        · exact .inl nothing
        · exact .inr (.inl ⟨same, long, List.mem_cons_of_mem name member, tooLong⟩)
        · exact .inr (.inr ⟨name :: before, place, List.prefix_cons_inj name |>.mpr inside,
            (leads before).trans led, refuses⟩)
      rw [follow] at failed
      split at failed
      · exact .inl (Except.error.inj failed ▸ rfl)
      · exact .inl (Except.error.inj failed ▸ rfl)
      · next isFolder =>
          split at failed
          · next refuses =>
              rw [Except.error.inj failed] at refuses
              exact .inr (.inr ⟨[], start, List.nil_prefix, rfl, refuses⟩)
          · next permitted =>
              split at failed
              · next up => exact later failed fun more => by simp [follow, isFolder, permitted, up]
              · next down =>
                  split at failed
                  · next long =>
                      exact .inr (.inl ⟨(Except.error.inj failed).symm, name,
                        List.mem_cons_self, long⟩)
                  · next short =>
                      exact later failed fun more => by
                        simp [follow, isFolder, permitted, down, short]

/-- What refuses access to a place is a refusal of the system, and no missing file. -/
theorem exists_refusal_of_permit {place : Place} {access : Access} {obstacle : Obstacle}
    (refuses : disk.permit place access = .error obstacle) :
    ∃ refusal, obstacle = .refused refusal := by
  unfold permit at refuses
  split at refuses
  · next refusal _ => exact ⟨refusal, (Except.error.inj refuses).symm⟩
  · cases refuses

/-- A look-up that fails without telling that nothing is there was hindered. -/
theorem hinders_of_locate {obstacle : Obstacle} (failed : disk.locate path = .error obstacle)
    (untold : obstacle.isAbsence = false) : disk.Hinders path obstacle := by
  unfold locate at failed
  split at failed
  · obtain rfl := Except.error.inj failed
    cases untold
  · split at failed
    · next long =>
        obtain rfl := Except.error.inj failed
        exact .tooLong (.inl long)
    · obtain nothing | ⟨rfl, long⟩ | ⟨before, place, inside, led, refuses⟩ :=
        blocked_of_follow failed
      · simp [untold] at nothing
      · exact .tooLong (.inr long)
      · obtain ⟨refusal, rfl⟩ := exists_refusal_of_permit refuses
        exact .refused ⟨before, inside, led⟩ refuses (by simpa [Obstacle.isAbsence] using untold)

/-- A failure to find a file that does not say that the file is absent hinders the look-up. -/
theorem hinders_of_find {obstacle : Obstacle} (failed : disk.find path = .error obstacle)
    (untold : obstacle.isAbsence = false) : disk.Hinders path obstacle := by
  cases located : disk.locate path with
  | error other =>
      simp only [find, located, bind, Except.bind] at failed
      obtain rfl := Except.error.inj failed
      exact hinders_of_locate located untold
  | ok place =>
      simp only [find, located, bind, Except.bind] at failed
      split at failed
      · cases failed
      · obtain rfl := Except.error.inj failed
        cases untold

/-- A file that can be read is found at its path. -/
theorem find_of_readFile {bytes : List UInt8} (reads : disk.readFile path = .ok bytes) :
    disk.find path = .ok (.file bytes) := by
  obtain ⟨place, located, reads⟩ := except_bind_eq_ok_iff.mp reads
  obtain ⟨_, _, reads⟩ := except_bind_eq_ok_iff.mp reads
  obtain ⟨_, _, reads⟩ := except_bind_eq_ok_iff.mp reads
  have located : disk.locate path = .ok place := by
    cases outcome : disk.locate path with
    | ok other => simpa [outcome, Except.mapError] using located
    | error obstacle => simp [outcome, Except.mapError] at located
  split at reads
  · next held isFile =>
      obtain rfl := Except.ok.inj reads
      simp only [find, located, bind, Except.bind, isFile]
      rfl
  · cases reads
  · cases reads

/-- What is found at a path is told to be there. -/
theorem holds_of_find {content : Content} (found : disk.find path = .ok content) :
    disk.holds path = .ok true := by
  rw [holds, found]

/-- The question whether a file exists fails only where something hinders the look-up. -/
theorem hinders_of_holds {fault : Fault} (failed : disk.holds path = .error fault) :
    ∃ obstacle, disk.Hinders path obstacle ∧
      fault = .lookUpFailed (DiskError.message ⟨obstacle, path⟩) := by
  unfold holds at failed
  split at failed
  · cases failed
  · next obstacle refuses =>
      split at failed
      · cases failed
      · next untold =>
          obtain rfl := Except.error.inj failed
          exact ⟨obstacle, hinders_of_find refuses (eq_false_of_ne_true untold), rfl⟩

end Disk

namespace Loading

variable {sources : Sources} {location : Location} {content : String}

/-- A text is there to be read: in a file, or in an answer that says it is what was asked for. -/
inductive TextAt (sources : Sources) : Location → String → Prop
  | file {path : FilePath} {bytes : List UInt8} {decoded : String}
      (reads : sources.disk.readFile path = .ok bytes)
      (decodes : Text.Utf8.decode bytes = .ok decoded) :
      TextAt sources (.file path) (Text.withLineFeeds decoded)
  | address {url body : String} {status : Int} (answers : sources.fetch url = .answered status body)
      (success : isSuccess status) : TextAt sources (.address url) body

/-- A document stands at a location: a text is there that writes it, and it is a mapping. -/
def Holds (sources : Sources) (location : Location) (document : Value) : Prop :=
  document.isMap ∧ ∃ content, TextAt sources location content ∧
    valueOf sources.yaml location.format content = .ok (.ok document)

/-- Why loading from a location ends without an answer. -/
inductive Breaks (sources : Sources) : Location → Fault → Prop
  | fetching {url : String} {fault : Fault} (fails : sources.fetch url = .failed fault) :
      Breaks sources (.address url) fault
  | lookUp {path : FilePath} {obstacle : Obstacle} (hinders : sources.disk.Hinders path obstacle) :
      Breaks sources (.file path) (.lookUpFailed (DiskError.message ⟨obstacle, path⟩))
  | json {location : Location} {content : String} {digits : Nat}
      (found : TextAt sources location content) (form : location.format = .json)
      (long : Json.HasLongNumeral content.toList digits) :
      Breaks sources location (.numeralTooLong digits)
  | yaml {location : Location} {content : String} {fault : Fault}
      (found : TextAt sources location content) (form : location.format = .yaml)
      (fails : sources.yaml.read content = .failed fault) : Breaks sources location fault

theorem append_ne_empty {first second : String} (nonempty : first ≠ "") : first ++ second ≠ "" :=
  fun whole => nonempty (String.append_eq_empty_iff.mp whole).1

/-- Every error has a wording. -/
theorem message_ne_empty (error : LoadError) : error.message ≠ "" := by
  unfold LoadError.message
  cases error with
  | fileNotFound | notFile | notUtf8 | unreadable | malformedJson | malformedYaml =>
      exact append_ne_empty (by decide)
  | refused | unanswered => exact append_ne_empty (append_ne_empty (append_ne_empty (by decide)))
  | notMapping => decide

/-! ## Texts -/

theorem load_of_textAt (found : TextAt sources location content) :
    load sources location = ofText sources.yaml location content := by
  cases found with
  | file reads decodes =>
      have found := Disk.find_of_readFile reads
      simp only [load, fromFile, Disk.holds_of_find found, bind, Except.bind, Bool.not_true,
        Bool.false_eq_true, if_false, found, reads, ofBytes, decodes]
  | address answers success => simp only [load, fromResponse, answers, success, if_true]

/-- There is a text, or something else is told of the location, or it cannot be looked up. -/
theorem exists_textAt_or (sources : Sources) (location : Location) :
    (∃ content, TextAt sources location content) ∨
      (∃ why, load sources location = .ok { location, outcome := .error why }) ∨
      ∃ fault, load sources location = .error fault ∧ Breaks sources location fault := by
  cases location with
  | file path =>
      rw [load, fromFile]
      cases held : sources.disk.holds path with
      | error fault =>
          obtain ⟨obstacle, hinders, rfl⟩ := Disk.hinders_of_holds held
          exact .inr (.inr ⟨_, rfl, .lookUp hinders⟩)
      | ok isThere =>
          cases isThere with
          | false => exact .inr (.inl ⟨.fileNotFound path, rfl⟩)
          | true =>
              simp only [bind, Except.bind, Bool.not_true, Bool.false_eq_true, if_false]
              split
              · exact .inr (.inl ⟨.notFile path, rfl⟩)
              · cases reads : sources.disk.readFile path with
                | error cause => exact .inr (.inl ⟨.unreadable cause, rfl⟩)
                | ok bytes =>
                    cases decodes : Text.Utf8.decode bytes with
                    | ok decoded => exact .inl ⟨_, .file reads decodes⟩
                    | error flaw =>
                        exact .inr (.inl ⟨.notUtf8 flaw, by simp [ofBytes, decodes]⟩)
  | address url =>
      rw [load]
      cases answers : sources.fetch url with
      | answered status body =>
          rw [fromResponse]
          by_cases success : isSuccess status
          · exact .inl ⟨body, .address answers success⟩
          · rw [if_neg success]
            exact .inr (.inl ⟨.refused url status, rfl⟩)
      | unanswered reason => exact .inr (.inl ⟨.unanswered url reason, rfl⟩)
      | failed fault => exact .inr (.inr ⟨fault, rfl, .fetching answers⟩)

/-- A text that is there has no value only because of what it writes. -/
theorem breaks_of_valueOf {fault : Fault} (found : TextAt sources location content)
    (fails : valueOf sources.yaml location.format content = .error fault) :
    Breaks sources location fault := by
  cases form : location.format with
  | json =>
      have ends : EndsAs (fun _ => True) (Breaks sources location) (valueOf sources.yaml .json content) := by
        refine EndsAs.bind ((Json.endsAs_read content).imp (fun _ ends => ends) ?_) ?_
        · rintro fault ⟨digits, rfl, long⟩
          exact .json found form long
        · intro read _ _
          cases read with
          | ok value => trivial
          | error malformed => trivial
      exact ends.of_error (form ▸ fails)
  | yaml =>
      rw [form, valueOf] at fails
      split at fails
      · cases fails
      · cases fails
      · next failed =>
          obtain rfl := Except.error.inj fails
          exact .yaml found form failed

/-- A value is a document exactly if it is a mapping. -/
theorem documentOf_eq_ok_iff {value document : Value} :
    documentOf value = .ok document ↔ value = document ∧ document.isMap := by
  unfold documentOf
  split
  · next isMap =>
      constructor
      · intro same
        obtain rfl := Except.ok.inj same
        exact ⟨rfl, isMap⟩
      · rintro ⟨rfl, _⟩
        rfl
  · next notMap =>
      constructor
      · intro same
        cases same
      · rintro ⟨rfl, isMap⟩
        exact absurd isMap notMap

/-- At a location there is at most one text. -/
theorem textAt_unique {other : String} (first : TextAt sources location content)
    (second : TextAt sources location other) : content = other := by
  cases first with
  | file reads decodes =>
      cases second with
      | file alsoReads alsoDecodes =>
          obtain rfl := Except.ok.inj (reads.symm.trans alsoReads)
          obtain rfl := Except.ok.inj (decodes.symm.trans alsoDecodes)
          rfl
  | address answers _ =>
      cases second with
      | address alsoAnswers _ =>
          exact (Response.answered.inj (answers.symm.trans alsoAnswers)).2

/-! ## Results -/

/-- What is told of a text that is there is told with its format. -/
theorem ofText_eq_ok_iff {loaded : Loaded} :
    ofText sources.yaml location content = .ok loaded ↔
      ∃ read, valueOf sources.yaml location.format content = .ok read ∧
        loaded = { location, format := location.format, outcome := read >>= documentOf } := by
  unfold ofText parse
  constructor
  · intro tells
    obtain ⟨outcome, parses, same⟩ := except_bind_eq_ok_iff.mp tells
    obtain ⟨read, reads, made⟩ := except_bind_eq_ok_iff.mp parses
    obtain rfl := Except.ok.inj made
    exact ⟨read, reads, (Except.ok.inj same).symm⟩
  · rintro ⟨read, reads, rfl⟩
    simp only [reads]
    rfl

/-- A location of which an error is told before a text is read has no text. -/
theorem not_textAt_of_load {why : LoadError}
    (loads : load sources location = .ok { location, outcome := .error why }) :
    ¬ TextAt sources location content := by
  intro found
  obtain ⟨read, _, same⟩ := ofText_eq_ok_iff.mp ((load_of_textAt found).symm.trans loads)
  cases congrArg Loaded.format same

/-- The document of a text that is there is the document that the location holds. -/
theorem bind_documentOf_eq_ok_iff {read : Except LoadError Value} {document : Value}
    (found : TextAt sources location content)
    (reads : valueOf sources.yaml location.format content = .ok read) :
    read >>= documentOf = .ok document ↔ Holds sources location document := by
  constructor
  · intro tells
    obtain ⟨value, rfl, isDocument⟩ := except_bind_eq_ok_iff.mp tells
    obtain ⟨rfl, isMap⟩ := documentOf_eq_ok_iff.mp isDocument
    exact ⟨isMap, content, found, reads⟩
  · rintro ⟨isMap, other, alsoFound, alsoReads⟩
    obtain rfl := textAt_unique found alsoFound
    obtain rfl := Except.ok.inj (reads.symm.trans alsoReads)
    exact documentOf_eq_ok_iff.mpr ⟨rfl, isMap⟩

/-- What is told of a location: a document exactly if it holds one, and else an error in words. -/
structure Tells (sources : Sources) (location : Location) (loaded : Loaded) : Prop where
  location_eq : loaded.location = location
  document_iff : ∀ document, loaded.outcome = .ok document ↔ Holds sources location document
  worded : ∀ why, loaded.outcome = .error why → why.message ≠ ""

theorem tells_of_load {why : LoadError}
    (loads : load sources location = .ok { location, outcome := .error why }) :
    Tells sources location { location, outcome := .error why } where
  location_eq := rfl
  document_iff := by
    intro document
    constructor
    · intro tells
      cases tells
    · rintro ⟨_, content, found, _⟩
      exact absurd found (not_textAt_of_load loads)
  worded := fun why _ => message_ne_empty why

/-- A text that is found and can be read, or can be told to be unreadable, is told as the format
says. -/
theorem tells_of_reads {read : Except LoadError Value} (found : TextAt sources location content)
    (reads : valueOf sources.yaml location.format content = .ok read) :
    Tells sources location
      { location, format := location.format, outcome := read >>= documentOf } where
  location_eq := rfl
  document_iff := fun _ => bind_documentOf_eq_ok_iff found reads
  worded := fun why _ => message_ne_empty why

/-- Loading either tells what the location holds, or something broke on the way. -/
theorem endsAs_load (sources : Sources) (location : Location) :
    EndsAs (Tells sources location) (Breaks sources location)
      (load sources location) := by
  rcases exists_textAt_or sources location with
    ⟨content, found⟩ | ⟨why, loads⟩ | ⟨fault, fails, breaks⟩
  · rw [load_of_textAt found]
    cases reads : valueOf sources.yaml location.format content with
    | error fault =>
        have fails : ofText sources.yaml location content = .error fault := by
          simp only [ofText, parse, reads]
          rfl
        rw [fails]
        exact breaks_of_valueOf found reads
    | ok read =>
        rw [ofText_eq_ok_iff.mpr ⟨read, reads, rfl⟩]
        exact tells_of_reads found reads
  · rw [loads]
    exact tells_of_load loads
  · rw [fails]
    exact breaks

/-- **Loading tells, unless it breaks.** For every disk, every answer from the web, whatever comes of
reading YAML, and every text that names a location, loading tells of a document or of an error.  It
tells of a document exactly if that document stands at the location, and every error has a wording.
Otherwise it cannot be told whether anything is at a path, a JSON text holds a number that is too long,
or asking for the address or reading the YAML text failed in a way of its own. -/
theorem load_tells_unless_broken (sources : Sources) (source : String) :
    (∃ loaded, load sources (.ofText source) = .ok loaded ∧
      Tells sources (.ofText source) loaded) ∨
    ∃ fault, load sources (.ofText source) = .error fault ∧
      Breaks sources (.ofText source) fault := by
  have ends := endsAs_load sources (.ofText source)
  cases outcome : load sources (.ofText source) with
  | ok loaded => exact .inl ⟨loaded, rfl, ends.of_ok outcome⟩
  | error fault => exact .inr ⟨fault, rfl, ends.of_error outcome⟩

/-- Not every location is told of: an address that cannot be asked for breaks the loading. -/
theorem not_always_told :
    ¬ ∀ (sources : Sources) (source : String), ∃ loaded,
      load sources (.ofText source) = .ok loaded := by
  intro claimed
  let sources : Sources :=
    { disk := { entries := [] }
      fetch := fun _ => .failed (.addressRejected "Invalid port: 'a'")
      yaml := .unknown }
  obtain ⟨loaded, loads⟩ := claimed sources "http://x:a/"
  cases loads

end Loading

end OpenApi
