import Classdesk.Descriptor
import Classdesk.Proofs.Name.Segments
import Classdesk.Proofs.Reading

/-!
# Descriptors and their parsers

Every type has one spelling as a descriptor. The parsers know nothing of it: they look at
the next character and go on from there. The main result is

> `descriptors_exact`: for each kind of descriptor, a text is parsed as a type exactly if it
> is the spelling of this type, and every text that spells no type is refused.

It rests on one property of parsers, `Takes`: the parser takes the spelling of a value off
the front of a text, whatever follows, and nothing else. That the text behind a descriptor
does not matter is what makes the parameters of a method readable without separators.

The parameters are read in a loop that looks for the closing parenthesis before each type.
`ParameterLoop` says what it does, without a bound on the rounds; the loop has exactly one
outcome on every text, because each type takes a character off it.
-/

namespace Classdesk

/-! ## Spelling -/

/-- A base type is spelled as its letter. -/
def BaseType.descriptor (type : BaseType) : List Char := [type.letter]

/-- A class is spelled `Lname;`. -/
def ClassName.descriptor (name : ClassName) : List Char := 'L' :: (name.text.toList ++ [';'])

/-- What an array holds is spelled like a type on its own. -/
def ElementType.descriptor : ElementType → List Char
  | base type => type.descriptor
  | object name => name.descriptor

/-- An array has one `[` for each of its dimensions. -/
def RefType.descriptor : RefType → List Char
  | object name => name.descriptor
  | array element extra => List.replicate (extra + 1) '[' ++ element.descriptor

/-- The spelling of a type. -/
def FieldType.descriptor : FieldType → List Char
  | base type => type.descriptor
  | ref type => type.descriptor

/-- The spelling of a result, `V` for none. -/
def MethodType.resultDescriptor : Option FieldType → List Char
  | none => ['V']
  | some type => type.descriptor

/-- The types of the parameters one behind the other, in parentheses, then the result. -/
def MethodType.descriptor (type : MethodType) : List Char :=
  '(' :: (type.parameters.flatMap FieldType.descriptor
    ++ ')' :: MethodType.resultDescriptor type.result)

/-! ## Parsers against spellings -/

namespace DescriptorParser

variable {α : Type} {parser : DescriptorParser α} {spelling : α → List Char}

/-- The parser takes the spelling of a value off the front of a text, whatever follows,
and nothing else. -/
def Takes (parser : DescriptorParser α) (spelling : α → List Char) : Prop :=
  ∀ cs a rest, parser cs = .ok (a, rest) ↔ cs = spelling a ++ rest

/-- A whole text is parsed as a value exactly if it is the spelling of this value, and is
refused if it spells none. -/
def Exact (parser : DescriptorParser α) (spelling : α → List Char) : Prop :=
  ∀ text : String,
    (∀ a, parser.run text = .ok a ↔ text = String.ofList (spelling a))
      ∧ ((∀ a, text ≠ String.ofList (spelling a)) → ∃ fault, parser.run text = .error fault)

/-- A text is parsed if nothing of it is left over. -/
private theorem run_eq_ok {text : String} {a : α} :
    parser.run text = .ok a ↔ parser text.toList = .ok (a, []) := by
  unfold run
  constructor
  · intro h
    split at h
    · next b heq =>
      cases h
      exact heq
    · cases h
    · cases h
  · intro h
    rw [h]

/-- Nothing may follow at the end of a text. -/
theorem Takes.exact (h : Takes parser spelling) : Exact parser spelling := by
  intro text
  have hok : ∀ a, parser.run text = .ok a ↔ text = String.ofList (spelling a) := by
    intro a
    rw [run_eq_ok, h, List.append_nil, String.ext_iff, String.toList_ofList]
  refine ⟨hok, ?_⟩
  intro hnone
  cases hrun : parser.run text with
  | error fault => exact ⟨fault, rfl⟩
  | ok a => exact absurd ((hok a).mp hrun) (hnone a)

end DescriptorParser

open DescriptorParser (Takes Exact)

/-! ## Types -/

private theorem BaseType.ofLetter?_eq_some {c : Char} {type : BaseType} :
    ofLetter? c = some type ↔ c = type.letter := by
  constructor
  · intro h
    unfold ofLetter? at h
    split at h <;> cases h <;> rfl
  · intro h
    rw [h, ofLetter?_letter]

/-- A base type is its letter. -/
theorem BaseType.parse_takes : Takes BaseType.parse BaseType.descriptor := by
  intro cs type rest
  cases cs with
  | nil => simp [parse, descriptor]
  | cons c cs =>
    simp only [parse, descriptor, List.singleton_append, List.cons.injEq,
      ← ofLetter?_eq_some]
    cases ofLetter? c with
    | none => simp
    | some found => simp

/-- Behind the `L` a class name goes on to the first `;`. -/
theorem ClassName.parseBody_takes :
    Takes ClassName.parseBody fun name => name.text.toList ++ [';'] := by
  intro cs name rest
  constructor
  · intro h
    unfold parseBody at h
    have hcs := List.takeWhile_append_dropWhile (p := (· != ';')) (l := cs)
    split at h
    · cases h
    · next c tail hdrop =>
      have hc : c = ';' := by
        have hstop := List.head?_dropWhile_not (· != ';') cs
        simpa [hdrop] using hstop
      subst hc
      dsimp only at h
      split at h
      · next found hname =>
        cases h
        show cs = (name.text.toList ++ [';']) ++ rest
        rw [ofString_eq_ok.mp hname, String.toList_ofList, List.append_assoc,
          List.singleton_append, ← hdrop]
        exact hcs.symm
      · cases h
  · intro h
    have hopen : ∀ c ∈ name.text.toList, (c != ';') = true := by
      intro c hc
      rw [bne_iff_ne]
      intro heq
      exact name.not_mem_text rfl (by decide) (heq ▸ hc)
    have htake : cs.takeWhile (· != ';') = name.text.toList := by
      rw [h, List.append_assoc, List.takeWhile_append_of_pos hopen]
      simp
    have hdrop : cs.dropWhile (· != ';') = ';' :: rest := by
      rw [h, List.append_assoc, List.dropWhile_append_of_pos hopen]
      simp
    unfold parseBody
    simp only [hdrop, htake, String.ofList_toList, ofString_eq_ok.mpr rfl]

/-- A name ends at the first semicolon, since it has none itself. -/
private theorem ClassName.parseBody_text (name : ClassName) (rest : List Char) :
    ClassName.parseBody (name.text.toList ++ [';'] ++ rest) = .ok (name, rest) :=
  (parseBody_takes _ name rest).mpr rfl

/-- A class is its name between `L` and a semicolon. -/
theorem ClassName.parse_takes : Takes ClassName.parse ClassName.descriptor := by
  intro cs name rest
  show _ ↔ cs = 'L' :: ((name.text.toList ++ [';']) ++ rest)
  constructor
  · intro h
    unfold parse at h
    split at h
    · next tail => rw [(parseBody_takes tail name rest).mp h]
    · cases h
  · intro h
    rw [h]
    exact parseBody_text name rest

/-- The first letter tells which of both it is. -/
theorem ElementType.parse_takes : Takes ElementType.parse ElementType.descriptor := by
  intro cs element rest
  constructor
  · intro h
    unfold parse at h
    split at h
    · next tail =>
      simp only [Reading.except_bind_eq_ok, Prod.exists, Except.ok.injEq, Prod.mk.injEq] at h
      obtain ⟨name, others, hname, rfl, rfl⟩ := h
      exact (ClassName.parse_takes ('L' :: tail) name others).mp hname
    · simp only [Reading.except_bind_eq_ok, Prod.exists, Except.ok.injEq, Prod.mk.injEq] at h
      obtain ⟨type, others, htype, rfl, rfl⟩ := h
      exact (BaseType.parse_takes cs type others).mp htype
  · intro h
    rw [h]
    cases element with
    | base type => cases type <;> rfl
    | object name =>
      show (ClassName.parseBody (name.text.toList ++ [';'] ++ rest) >>= _) = _
      rw [ClassName.parseBody_text]
      rfl

/-- What an array holds does not start with a `[`. -/
theorem ElementType.descriptor_eq_cons (element : ElementType) :
    ∃ c cs, element.descriptor = c :: cs ∧ (c == '[') = false := by
  cases element with
  | base type =>
    refine ⟨type.letter, [], rfl, ?_⟩
    cases type <;> rfl
  | object name => exact ⟨'L', name.text.toList ++ [';'], rfl, rfl⟩

/-- So the `[`s in front of it can be counted and taken off. -/
theorem ElementType.count_brackets (element : ElementType) (n : Nat) (rest : List Char) :
    ((List.replicate n '[' ++ (element.descriptor ++ rest)).takeWhile (· == '[')).length = n
      ∧ (List.replicate n '[' ++ (element.descriptor ++ rest)).dropWhile (· == '[')
          = element.descriptor ++ rest := by
  have hbrackets : ∀ c ∈ List.replicate n '[', (c == '[') = true := by
    intro c hc
    rw [(List.mem_replicate.mp hc).2]
    rfl
  obtain ⟨c, cs, hcons, hc⟩ := element.descriptor_eq_cons
  rw [hcons, List.cons_append, List.takeWhile_append_of_pos hbrackets,
    List.dropWhile_append_of_pos hbrackets, List.takeWhile_cons_of_neg (by simp [hc]),
    List.dropWhile_cons_of_neg (by simp [hc]), List.append_nil, List.length_replicate]
  exact ⟨rfl, rfl⟩

/-- An array has a bracket for each dimension in front of its element. -/
theorem RefType.parse_takes : Takes RefType.parse RefType.descriptor := by
  intro cs type rest
  constructor
  · intro h
    unfold parse at h
    split at h
    · cases h
    · next tail =>
      simp only [Reading.except_bind_eq_ok, Prod.exists, Except.ok.injEq, Prod.mk.injEq] at h
      obtain ⟨name, others, hname, rfl, rfl⟩ := h
      exact (ClassName.parse_takes ('L' :: tail) name others).mp hname
    · next tail =>
      simp only [Reading.except_bind_eq_ok, Prod.exists, Except.ok.injEq, Prod.mk.injEq] at h
      obtain ⟨element, others, helement, rfl, rfl⟩ := h
      have hdrop := (ElementType.parse_takes _ element others).mp helement
      have htake : tail.takeWhile (· == '[')
          = List.replicate (tail.takeWhile (· == '[')).length '[' := by
        rw [List.eq_replicate_iff]
        refine ⟨rfl, ?_⟩
        intro c hc
        exact beq_iff_eq.mp (List.all_eq_true.mp List.all_takeWhile c hc)
      show '[' :: tail = '[' :: List.replicate _ '[' ++ element.descriptor ++ others
      rw [List.cons_append, List.cons_append, List.append_assoc, ← hdrop, ← htake,
        List.takeWhile_append_dropWhile]
    · cases h
  · intro h
    rw [h]
    cases type with
    | object name =>
      show (ClassName.parseBody (name.text.toList ++ [';'] ++ rest) >>= _) = _
      rw [ClassName.parseBody_text]
      rfl
    | array element extra =>
      obtain ⟨hcount, hdrop⟩ := element.count_brackets extra rest
      have hchars : (RefType.array element extra).descriptor ++ rest
          = '[' :: (List.replicate extra '[' ++ (element.descriptor ++ rest)) := by
        rw [descriptor, List.replicate_succ, List.cons_append, List.cons_append,
          List.append_assoc]
      rw [hchars]
      unfold parse
      simp only [hcount, hdrop, (ElementType.parse_takes _ element rest).mpr rfl]
      rfl

/-- A class or an array starts with a character that is no letter of a base type. -/
theorem RefType.descriptor_eq_cons (type : RefType) :
    ∃ c cs, type.descriptor = c :: cs ∧ (c = 'L' ∨ c = '[') := by
  cases type with
  | object name => exact ⟨'L', name.text.toList ++ [';'], rfl, .inl rfl⟩
  | array element extra => exact ⟨'[', _, rfl, .inr rfl⟩

namespace FieldType

/-- Field types are parsed exactly from their descriptors. -/
theorem parse_takes : Takes FieldType.parse FieldType.descriptor := by
  intro cs type rest
  constructor
  · intro h
    unfold parse at h
    split at h
    · cases h
    · next c tail =>
      split at h
      · next base hbase =>
        cases h
        rw [BaseType.ofLetter?_eq_some.mp hbase]
        rfl
      · simp only [Reading.except_bind_eq_ok, Prod.exists, Except.ok.injEq, Prod.mk.injEq] at h
        obtain ⟨found, others, hfound, rfl, rfl⟩ := h
        exact (RefType.parse_takes _ found others).mp hfound
  · intro h
    rw [h]
    cases type with
    | base type => cases type <;> rfl
    | ref type =>
      obtain ⟨c, tail, hcons, hc⟩ := type.descriptor_eq_cons
      have hparse := (RefType.parse_takes (type.descriptor ++ rest) type rest).mpr rfl
      have hletter : BaseType.ofLetter? c = none := by
        rcases hc with hc | hc
        · rw [hc]
          rfl
        · rw [hc]
          rfl
      show parse (type.descriptor ++ rest) = .ok (.ref type, rest)
      rw [hcons, List.cons_append] at hparse ⊢
      unfold parse
      simp only [hletter, hparse]
      rfl

/-- No type starts with the `)` behind the parameters or the `V` for no result. -/
theorem descriptor_eq_cons (type : FieldType) :
    ∃ c cs, type.descriptor = c :: cs ∧ c ≠ ')' ∧ c ≠ 'V' := by
  cases type with
  | base type =>
    refine ⟨type.letter, [], rfl, ?_⟩
    cases type <;> decide
  | ref type =>
    obtain ⟨c, cs, hcons, hc⟩ := type.descriptor_eq_cons
    refine ⟨c, cs, hcons, ?_⟩
    rcases hc with hc | hc
    · rw [hc]
      decide
    · rw [hc]
      decide

/-- Every type takes a character. -/
theorem length_lt_of_parse {cs rest : List Char} {type : FieldType}
    (h : FieldType.parse cs = .ok (type, rest)) : rest.length < cs.length := by
  obtain ⟨c, tail, hcons, -⟩ := type.descriptor_eq_cons
  rw [(parse_takes cs type rest).mp h, hcons, List.cons_append, List.length_cons,
    List.length_append]
  omega

/-! ## Parameters -/

/-- The loop over the parameters: it stops at the closing parenthesis, which it takes off,
and with the fault of a type that cannot be parsed. Any other round parses a type. -/
inductive ParameterLoop :
    List Char → Except DescriptorFault (List FieldType × List Char) → Prop
  | close (cs : List Char) : ParameterLoop (')' :: cs) (.ok ([], cs))
  | fault {cs : List Char} {fault : DescriptorFault} (hopen : cs.head? ≠ some ')')
      (hparse : FieldType.parse cs = .error fault) : ParameterLoop cs (.error fault)
  | type {cs rest : List Char} {type : FieldType}
      {outcome : Except DescriptorFault (List FieldType × List Char)}
      (hopen : cs.head? ≠ some ')') (hparse : FieldType.parse cs = .ok (type, rest))
      (hrest : ParameterLoop rest outcome) :
      ParameterLoop cs (outcome.map fun found => (type :: found.1, found.2))

private theorem parseParameters_close (fuel : Nat) (cs : List Char) :
    parseParameters fuel (')' :: cs) = .ok ([], cs) := by
  cases fuel <;> rfl

private theorem parseParameters_open {fuel : Nat} {cs : List Char} (hopen : cs.head? ≠ some ')') :
    parseParameters (fuel + 1) cs
      = (FieldType.parse cs).bind fun first =>
          (parseParameters fuel first.2).map fun found => (first.1 :: found.1, found.2) := by
  rw [parseParameters]
  · rfl
  · intro tail htail
    rw [htail] at hopen
    exact hopen rfl

/-- With more rounds than characters the parser is the loop. -/
theorem parameterLoop_iff {fuel : Nat} {cs : List Char}
    {outcome : Except DescriptorFault (List FieldType × List Char)} (hfuel : cs.length < fuel) :
    ParameterLoop cs outcome ↔ parseParameters fuel cs = outcome := by
  -- A round that parses a type leaves fewer characters to the rounds that are left.
  induction fuel generalizing cs outcome with
  | zero => omega
  | succ fuel ih =>
    by_cases hclose : cs.head? = some ')'
    · obtain ⟨tail, rfl⟩ := List.head?_eq_some_iff.mp hclose
      rw [parseParameters_close]
      constructor
      · intro h
        cases h with
        | close => rfl
        | fault hopen _ => exact absurd rfl hopen
        | type hopen _ _ => exact absurd rfl hopen
      · intro h
        rw [← h]
        exact .close tail
    · rw [parseParameters_open hclose]
      cases hparse : FieldType.parse cs with
      | error fault =>
        constructor
        · intro h
          cases h with
          | close => exact absurd rfl hclose
          | fault _ hfault =>
            rw [hparse] at hfault
            cases hfault
            rfl
          | type _ htype _ =>
            rw [hparse] at htype
            cases htype
        · intro h
          rw [← h]
          exact .fault hclose hparse
      | ok first =>
        obtain ⟨type, rest⟩ := first
        have hshorter := length_lt_of_parse hparse
        constructor
        · intro h
          cases h with
          | close => exact absurd rfl hclose
          | fault _ hfault =>
            rw [hparse] at hfault
            cases hfault
          | type _ htype hrest =>
            rw [hparse] at htype
            cases htype
            rw [← (ih (by omega)).mp hrest]
            rfl
        · intro h
          rw [← h]
          exact .type hclose hparse ((ih (by omega)).mpr rfl)

/-- The loop goes through the types up to the closing parenthesis. -/
theorem parameterLoop_ok {cs : List Char} {types : List FieldType} {rest : List Char} :
    ParameterLoop cs (.ok (types, rest))
      ↔ cs = types.flatMap FieldType.descriptor ++ ')' :: rest := by
  constructor
  · intro h
    generalize hout : Except.ok (types, rest) = outcome at h
    induction h generalizing types with
    | close cs =>
      cases hout
      rfl
    | fault _ _ => cases hout
    | @type cs next type outcome hopen hparse hrest ih =>
      cases outcome with
      | error fault => cases hout
      | ok found =>
        cases hout
        rw [(parse_takes cs type next).mp hparse, ih rfl, List.flatMap_cons, List.append_assoc]
  · intro h
    induction types generalizing cs with
    | nil =>
      rw [h]
      exact .close rest
    | cons type types ih =>
      rw [List.flatMap_cons, List.append_assoc] at h
      obtain ⟨c, tail, hcons, hc, -⟩ := type.descriptor_eq_cons
      have hopen : cs.head? ≠ some ')' := by
        rw [h, hcons]
        simpa using hc
      exact .type hopen ((parse_takes cs type _).mpr h) (ih rfl)

end FieldType

/-! ## Methods -/

/-- What the loop makes of a text, with the rounds that a method gives it. -/
theorem FieldType.parseParameters_eq_ok (cs : List Char) (types : List FieldType)
    (rest : List Char) :
    parseParameters (cs.length + 1) cs = .ok (types, rest)
      ↔ cs = types.flatMap FieldType.descriptor ++ ')' :: rest := by
  rw [← parameterLoop_iff (Nat.lt_succ_self _), parameterLoop_ok]

/-- Parameters are parsed up to the first closing parenthesis, then the result. -/
theorem MethodType.parse_takes : Takes MethodType.parse MethodType.descriptor := by
  intro cs type rest
  obtain ⟨parameters, result⟩ := type
  constructor
  · intro h
    unfold parse at h
    split at h
    · next tail =>
      simp only [Reading.except_bind_eq_ok, Prod.exists] at h
      obtain ⟨types, others, htypes, hresult⟩ := h
      rw [(FieldType.parseParameters_eq_ok _ _ _).mp htypes]
      split at hresult
      · cases hresult
        simp [descriptor, MethodType.resultDescriptor]
      · simp only [Reading.except_bind_eq_ok, Prod.exists, Except.ok.injEq, Prod.mk.injEq,
          mk.injEq] at hresult
        obtain ⟨found, behind, hfound, ⟨rfl, rfl⟩, rfl⟩ := hresult
        rw [(FieldType.parse_takes _ found behind).mp hfound]
        simp [descriptor, MethodType.resultDescriptor]
    · cases h
  · intro h
    have hparameters := (FieldType.parseParameters_eq_ok _ parameters
      (MethodType.resultDescriptor result ++ rest)).mpr rfl
    have hcs : cs = '(' :: (parameters.flatMap FieldType.descriptor
        ++ ')' :: (MethodType.resultDescriptor result ++ rest)) := by
      rw [h]
      simp [descriptor]
    rw [hcs]
    unfold parse
    simp only [hparameters, bind, Except.bind]
    cases result with
    | none => rfl
    | some result =>
      obtain ⟨c, tail, hcons, -, hc⟩ := result.descriptor_eq_cons
      have hresult := (FieldType.parse_takes (result.descriptor ++ rest) result rest).mpr rfl
      simp only [resultDescriptor]
      split
      · next heq =>
        rw [hcons, List.cons_append] at heq
        cases heq
        exact absurd rfl hc
      · rw [hresult]

/-- **Descriptors are exactly the spellings of types.** A text is parsed as a type if and
only if it is the spelling of this type, for each of the five kinds; any other text is
refused. Class names are rows of segments with slashes between them. The loop over the
parameters has one outcome on every text, the one that the parser computes. -/
theorem descriptors_exact :
    Exact BaseType.parse BaseType.descriptor
      ∧ Exact ClassName.parse ClassName.descriptor
      ∧ Exact RefType.parse RefType.descriptor
      ∧ Exact FieldType.parse FieldType.descriptor
      ∧ Exact MethodType.parse MethodType.descriptor
      ∧ (∀ text : String, (∃ name : ClassName, name.text = text) ↔ IsClassName text.toList)
      ∧ ∀ cs outcome, FieldType.ParameterLoop cs outcome
          ↔ FieldType.parseParameters (cs.length + 1) cs = outcome := by
  refine ⟨BaseType.parse_takes.exact, ClassName.parse_takes.exact, RefType.parse_takes.exact,
    FieldType.parse_takes.exact, MethodType.parse_takes.exact, exists_className_iff, ?_⟩
  intro cs outcome
  exact FieldType.parameterLoop_iff (Nat.lt_succ_self _)

example : (MethodType.mk [.base .int, .ref (.array (.base .long) 1),
      .ref (.object ⟨"java/lang/Object", by rfl⟩)] none).descriptor
    = "(I[[JLjava/lang/Object;)V".toList := by
  decide

end Classdesk
