import ApiForge.Proofs.Artifact.StatusKey
import ApiForge.Proofs.Artifact.Twice
import ApiForge.Proofs.Source.Form
/-!
Which variants the answers of an operation have.

The source of a server defines an enumeration for the answers of each operation.
Its variants are read back from the block that declares them, and their codes from
the function that gives these. There is one for each key of the operation's answers
that stands for a code, in order and with this code (`response_variants`). What is
known of the names of variants is thus known of the source, and with it that a key
may break it (`variant_with_plus`).
-/

namespace ApiForge

open Source (Step typesIn)

-- ================================================ statement vocabulary

namespace Source

/-- What stands behind an opening line, up to the next blank line. -/
def stretch (opening : String) (steps : List Step) : List Step :=
  ((steps.dropWhile (· != .enter opening)).drop 1).takeWhile (· != .blank)

/-- The variant that a line declares, with or without a body. -/
def variant? : Step → Option String
  | .line text =>
    some (String.ofList (text.toList.takeWhile fun c => c != '(' && c != ','))
  | _ => none

/-- The variants of an enumeration. -/
def variantsIn (name : String) (steps : List Step) : List String :=
  (stretch ("pub enum " ++ name ++ " \x7b") steps).filterMap variant?

/-- The variant and the result of an arm of a match. -/
def arm? (name : String) : Step → Option (String × String)
  | .line text => do
    let cs ← skip (name ++ "::") text.toList
    let result := (cs.dropWhile (· != '>')).drop 2
    return (String.ofList (cs.takeWhile fun c => c != '(' && c != ' '),
      String.ofList (result.takeWhile (· != ',')))
  | _ => none

/-- The status code of each variant of an enumeration. -/
def statusesIn (name : String) (steps : List Step) : List (String × String) :=
  (stretch "pub fn status(&self) -> u16 \x7b" steps).filterMap (arm? name)

/-- Steps define an enumeration with a variant and a status code for each key that
is answered. -/
structure DefinesAnswers (name : String) (answered : List (String × Nat))
    (steps : List Step) : Prop where
  types : typesIn steps = [name]
  variants : variantsIn name steps
    = answered.map fun a => ResponseVariant.nameOf a.1
  statuses : statusesIn name steps
    = answered.map fun a => (ResponseVariant.nameOf a.1, toString a.2)
  identifiers : ∀ a ∈ answered,
    Identifier.IsIdentifier (ResponseVariant.nameOf a.1) ↔ '+' ∉ a.1.toList
  distinct : (variantsIn name steps).Nodup
    ↔ answered.Pairwise fun a b =>
      a.1 ≠ b.1 ∧ ¬ ResponseVariant.SameRange a.1 b.1

end Source

-- ================================================================ reading

namespace Source

/-- The stretch behind an opening line. -/
theorem stretch_eq {opening : String} {front body : List Step}
    (hfront : .enter opening ∉ front) (hbody : .blank ∉ body)
    (back : List Step) :
    stretch opening (front ++ .enter opening :: (body ++ .blank :: back))
      = body := by
  have hskip : ∀ step ∈ front, (step != .enter opening) = true := by
    rintro step hstep
    exact bne_iff_ne.2 fun heq => hfront (heq ▸ hstep)
  have hkeep : ∀ step ∈ body, (step != .blank) = true := by
    rintro step hstep
    exact bne_iff_ne.2 fun heq => hbody (heq ▸ hstep)
  rw [stretch, List.dropWhile_append_of_pos hskip,
    List.dropWhile_cons_of_neg (by simp), List.drop_one, List.tail_cons,
    Text.takeWhile_append_cons hkeep (by simp)]

/-- A name in which no mark of the source stands. -/
def Plain (name : String) : Prop :=
  ∀ c ∈ name.toList, c.isAlphanum = true ∨ c = '+'

variable {name : String}

/-- A plain name has neither brackets nor arrows nor any other mark in it. -/
theorem Plain.ne (h : Plain name) {c mark : Char} (hc : c ∈ name.toList)
    (hmark : (mark.isAlphanum || mark == '+') = false) : c ≠ mark := by
  rintro rfl
  rcases h c hc with hletter | rfl
  · rw [hletter] at hmark
    cases hmark
  · cases hmark

/-- A name ends where one of two marks stands behind it. -/
theorem Plain.takeWhile (h : Plain name) {a b mark : Char}
    (ha : (a.isAlphanum || a == '+') = false)
    (hb : (b.isAlphanum || b == '+') = false) (hmark : mark = a ∨ mark = b)
    (rest : List Char) :
    (name.toList ++ mark :: rest).takeWhile (fun c => c != a && c != b)
      = name.toList := by
  refine Text.takeWhile_append_cons (fun c hc => ?_) ?_ rest
  · rw [Bool.and_eq_true, bne_iff_ne, bne_iff_ne]
    exact ⟨h.ne hc ha, h.ne hc hb⟩
  · rcases hmark with rfl | rfl <;> simp

/-- The line of a variant is read back as its name, whether it carries a body or not. -/
theorem variant?_line (h : Plain name) (body : Option TypeExpr) :
    variant? (.line (match body with
      | some type => name ++ "(" ++ type.text ++ "),"
      | none => name ++ ",")) = some name := by
  cases body with
  | none =>
      have hname := h.takeWhile (a := '(') (b := ',') rfl rfl (.inr rfl) []
      rw [variant?, String.toList_append]
      exact congrArg some ((congrArg String.ofList hname).trans
        String.ofList_toList)
  | some type =>
      have hname := h.takeWhile (a := '(') (b := ',') rfl rfl (.inl rfl)
        (type.text.toList ++ [')', ','])
      rw [variant?]
      simp only [String.toList_append, List.append_assoc]
      exact congrArg some ((congrArg String.ofList hname).trans
        String.ofList_toList)

/-- An arm is read whose name ends with a mark in front of the arrow. -/
theorem arm?_of_mark (h : Plain name) (owner : String) (n : Nat) {mark : Char}
    {rest : List Char} (hmark : mark = '(' ∨ mark = ' ')
    (hrest : '>' ∉ mark :: rest) :
    arm? owner (.line (owner ++ "::"
      ++ String.ofList (name.toList ++ mark :: (rest
        ++ '>' :: ' ' :: ((toString n).toList ++ [','])))))
      = some (name, toString n) := by
  have hname := h.takeWhile (a := '(') (b := ' ') rfl rfl hmark
    (rest ++ '>' :: ' ' :: ((toString n).toList ++ [',']))
  -- nothing in front of the arrow is part of one, so the arrow is found where it stands
  have harrow : ∀ c ∈ name.toList ++ mark :: rest, (c != '>') = true := by
    intro c hc
    rcases List.mem_append.1 hc with hc | hc
    · exact bne_iff_ne.2 (h.ne hc rfl)
    · exact bne_iff_ne.2 fun heq => hrest (heq ▸ hc)
  have hresult : ((name.toList ++ mark :: (rest
      ++ '>' :: ' ' :: ((toString n).toList ++ [',']))).dropWhile
        (· != '>')).drop 2 = (toString n).toList ++ [','] := by
    rw [← List.cons_append, ← List.append_assoc,
      List.dropWhile_append_of_pos harrow,
      List.dropWhile_cons_of_neg (by decide)]
    rfl
  -- the digits of a status have no comma in them
  have hcomma : ∀ c ∈ (toString n).toList, (c != ',') = true := by
    intro c hc
    refine bne_iff_ne.2 fun heq => ?_
    have hdigit := Numeric.isDigit_of_mem_toString hc
    rw [heq] at hdigit
    cases hdigit
  rw [arm?, String.toList_append, String.toList_ofList, skip_append,
    Option.bind_eq_bind, Option.bind_some]
  dsimp only
  rw [hname, hresult, Text.takeWhile_append_cons hcomma (by decide),
    String.ofList_toList, String.ofList_toList]
  rfl

/-- The line of an arm is read back as the name of its variant and the status. -/
theorem arm?_line (h : Plain name) (owner : String) (carries : Bool) (n : Nat) :
    arm? owner (.line (owner ++ "::" ++ name ++ (if carries then "(_)" else "")
      ++ " => " ++ toString n ++ ",")) = some (name, toString n) := by
  -- behind the name stands the mark for a body, or the arrow
  obtain ⟨mark, rest, hmark, hrest, hbetween⟩ : ∃ mark rest,
      (mark = '(' ∨ mark = ' ') ∧ '>' ∉ mark :: rest
        ∧ (if carries then "(_)" else "") ++ " => "
          = String.ofList (mark :: (rest ++ ['>', ' '])) := by
    cases carries with
    | false => exact ⟨' ', ['='], .inr rfl, by decide, rfl⟩
    | true => exact ⟨'(', ['_', ')', ' ', '='], .inl rfl, by decide, rfl⟩
  have hassoc : owner ++ "::" ++ name ++ (if carries then "(_)" else "")
        ++ " => " ++ toString n ++ ","
      = owner ++ "::" ++ name ++ ((if carries then "(_)" else "") ++ " => ")
        ++ toString n ++ "," := by
    simp only [String.append_assoc]
  rw [hassoc, hbetween, ← arm?_of_mark h owner n hmark hrest]
  refine congrArg (fun text => arm? owner (.line text)) ?_
  rw [← String.toList_inj]
  simp

end Source

namespace ServerModule

open Source

variable {p : OperationPlan}

/-- The declaration of a variant. -/
def variantSteps (v : ResponseVariant) : List Step :=
  [.doc (some v.description),
   .line (match v.body with
    | some type => v.name ++ "(" ++ type.text ++ "),"
    | none => v.name ++ ",")]

/-- The arm that gives the status of a variant. -/
def statusStep (owner : String) (v : ResponseVariant) : Step :=
  .line (owner ++ "::" ++ v.name ++ (if v.body.isSome then "(_)" else "")
    ++ " => " ++ toString v.status ++ ",")

/-- The answers of an operation begin with the variants, and behind these stand
their statuses. -/
theorem responseSteps_eq (p : OperationPlan) :
    ∃ (label subject : String) (status back : List Step), responseSteps p
        = ([.line label, .line "#[derive(Debug, Clone, PartialEq)]"] : List Step)
          ++ .enter ("pub enum " ++ (p.name ++ "Response") ++ " \x7b")
          :: (p.variants.flatMap variantSteps
            ++ .leave "\x7d" :: .blank :: status)
      ∧ status
        = ([.enter ("impl " ++ (p.name ++ "Response") ++ " \x7b")] : List Step)
          ++ .enter "pub fn status(&self) -> u16 \x7b"
          :: (.enter subject :: p.variants.map (statusStep (p.name ++ "Response"))
            ++ .leave "\x7d" :: .leave "\x7d" :: .blank :: back) :=
  ⟨_, _, _, _, rfl, rfl⟩

/-- The enumeration of the answers has the variants that are planned. -/
theorem variantsIn_responseSteps (h : ∀ v ∈ p.variants, Plain v.name) :
    variantsIn (p.name ++ "Response") (responseSteps p)
      = p.variants.map (·.name) := by
  obtain ⟨label, subject, status, back, hsplit, -⟩ := responseSteps_eq p
  have hread : (p.variants.flatMap variantSteps).filterMap variant?
      = p.variants.map (·.name) := by
    rw [List.filterMap_flatMap, ← List.flatMap_pure_eq_map]
    refine List.flatMap_congr fun v hv => ?_
    rw [variantSteps, List.filterMap_cons_none rfl,
      List.filterMap_cons_some (variant?_line (h v hv) v.body)]
    rfl
  rw [variantsIn, hsplit, List.append_cons (p.variants.flatMap variantSteps),
    stretch_eq (by simp) (by simp [variantSteps]), List.filterMap_append, hread]
  exact List.append_nil _

/-- Each variant has the status that is planned. -/
theorem statusesIn_responseSteps (h : ∀ v ∈ p.variants, Plain v.name) :
    statusesIn (p.name ++ "Response") (responseSteps p)
      = p.variants.map fun v => (v.name, toString v.status) := by
  obtain ⟨label, subject, status, back, hsplit, hstatus⟩ := responseSteps_eq p
  have hread : (p.variants.map (statusStep (p.name ++ "Response"))).filterMap
      (arm? (p.name ++ "Response"))
      = p.variants.map fun v => (v.name, toString v.status) := by
    rw [List.filterMap_map, ← List.filterMap_eq_map]
    refine List.filterMap_congr fun v hv => ?_
    exact arm?_line (h v hv) (p.name ++ "Response") v.body.isSome v.status
  -- neither of the blocks in front is that of the function
  have henum (text : String) :
      "pub enum " ++ text ++ " \x7b" ≠ "pub fn status(&self) -> u16 \x7b" := by
    intro heq
    have hletter := congrArg (fun s : String => s.toList[4]?) heq
    simp at hletter
  have himpl (text : String) :
      "impl " ++ text ++ " \x7b" ≠ "pub fn status(&self) -> u16 \x7b" := by
    intro heq
    have hletter := congrArg (fun s : String => s.toList[0]?) heq
    simp at hletter
  obtain ⟨front, hfront, hopening⟩ : ∃ front,
      responseSteps p = front ++ .enter "pub fn status(&self) -> u16 \x7b"
        :: ((.enter subject
          :: (p.variants.map (statusStep (p.name ++ "Response"))
            ++ [.leave "\x7d", .leave "\x7d"])) ++ .blank :: back)
      ∧ .enter "pub fn status(&self) -> u16 \x7b" ∉ front := by
    refine ⟨[.line label, .line "#[derive(Debug, Clone, PartialEq)]"]
      ++ .enter ("pub enum " ++ (p.name ++ "Response") ++ " \x7b")
      :: (p.variants.flatMap variantSteps ++ [.leave "\x7d", .blank,
        .enter ("impl " ++ (p.name ++ "Response") ++ " \x7b")]), ?_, ?_⟩
    · rw [hsplit, hstatus]
      simp only [List.append_assoc, List.cons_append, List.nil_append]
    · simp [variantSteps, (henum _).symm, (himpl _).symm]
  rw [statusesIn, hfront, stretch_eq hopening (by simp [statusStep]),
    List.filterMap_cons_none rfl, List.filterMap_append, hread]
  exact List.append_nil _

end ServerModule

/-- The answers of a plan are those that its operation gives. -/
theorem OperationPlan.Planned.answers {d : Document} {e : Document.Endpoint}
    {p : OperationPlan} (h : Planned d e p) :
    ∃ answered, Response.Answered e.operation.responses answered
      ∧ Source.DefinesAnswers (e.name ++ "Response") answered
        (ServerModule.responseSteps p) := by
  obtain ⟨answered, hanswered, hvariants⟩ :=
    Response.exists_answered e.operation.responses
  rw [← h.variants] at hvariants
  -- the names of variants are plain, since their keys are statuses
  have hplain : ∀ v ∈ p.variants, Source.Plain v.name := by
    intro v hv
    have hmem : (v.name, v.status)
        ∈ p.variants.map fun v => (v.name, v.status) :=
      List.mem_map_of_mem hv
    rw [hvariants] at hmem
    obtain ⟨a, ha, heq⟩ := List.mem_map.1 hmem
    rw [← (Prod.mk.inj heq).1]
    exact ResponseVariant.chars_of_nameOf (hanswered.stands a ha)
  have hname : p.name = e.name := h.name
  -- the variants read off the enum are those of the plan
  have hnames : Source.variantsIn (e.name ++ "Response")
      (ServerModule.responseSteps p)
      = answered.map fun a => ResponseVariant.nameOf a.1 := by
    have hfirst := congrArg (List.map Prod.fst) hvariants
    rw [List.map_map, List.map_map] at hfirst
    rw [← hname, ServerModule.variantsIn_responseSteps hplain]
    exact hfirst
  refine ⟨answered, hanswered, ?_, hnames, ?_, fun a ha => ?_, ?_⟩
  · rw [ServerModule.typesIn_responseSteps, hname]
  · have hstatuses := congrArg
      (List.map fun a : String × Nat => (a.1, toString a.2)) hvariants
    rw [List.map_map, List.map_map] at hstatuses
    rw [← hname, ServerModule.statusesIn_responseSteps hplain]
    exact hstatuses
  · exact ResponseVariant.isIdentifier_nameOf (hanswered.stands a ha)
  · rw [hnames, ResponseVariant.nodup_names hanswered.stands]

-- ============================================================= main result

namespace Settings

open Source (statusesIn variantsIn)

/-- The server that is generated from a prepared document defines an enumeration
for each operation, with a variant and a status for each key of its answers that
stands for a code. A variant is an identifier unless its key has a plus sign, and
the variants are different unless a range stands in two ways. -/
theorem response_variants {d : Document} {p : Prepared} (h : d.prepare = .ok p)
    (hf : p.document.MapsFinitely) :
    ∃ c m, p.document.catalog = .ok c ∧ ServerModule.ofCatalog c = .ok m
      ∧ (∀ s : Settings, ∃ artifacts, s.generate p.document = .ok artifacts
          ∧ ⟨"server", Source.text (ServerModule.steps m)⟩ ∈ artifacts)
      ∧ List.Forall₂ (fun e plan =>
          ServerModule.responseSteps plan <:+: m.steps
            ∧ ∃ answered, Response.Answered e.operation.responses answered
              ∧ Source.DefinesAnswers (e.name ++ "Response") answered
                (ServerModule.responseSteps plan))
          p.document.operations m.plans := by
  obtain ⟨c, m, hc, hm, hwritten, hplans⟩ := Document.exists_server h hf
  refine ⟨c, m, hc, hm, hwritten, hplans.imp fun e plan hplan => ?_⟩
  exact ⟨hplan.2.2, hplan.1.answers⟩

-- answers under given keys

/-- Answers in as many ways as there are keys. -/
def answerUnder (keys : List String) : Operation where
  responses := keys.map fun key => (key, .inline { description := "Answered." })

def answering (keys : List String) : Document where
  openapi := "3.1.0"
  info := { title := "Answers", version := "1" }
  paths := some
    [("/pets", PathItem.withOperation {} .get (some (answerUnder keys)))]

/-- A code and a range have variants, and any other answer has none. -/
theorem response_variants_answering : ∃ p m plan,
    (answering ["200", "4xx", "default"]).prepare = .ok p
    ∧ p.document.MapsFinitely
    ∧ ServerModule.plans m = [plan]
    ∧ typesIn (ServerModule.responseSteps plan) = ["GetPetsResponse"]
    ∧ statusesIn "GetPetsResponse" (ServerModule.responseSteps plan)
      = [("Status200", "200"), ("Status4XX", "400")]
    ∧ (variantsIn "GetPetsResponse" (ServerModule.responseSteps plan)).Nodup := by
  obtain ⟨p, hp, hdocument, hfinite⟩ := Document.prepared_of_shapes
    (d := answering ["200", "4xx", "default"]) 1 (by decide +kernel)
    (by decide +kernel)
  obtain ⟨c, m, -, -, -, hplans⟩ := response_variants hp hfinite
  have hoperations : p.document.operations.map (fun e =>
        (e.name, e.operation.responses.map (·.1)))
      = [("GetPets", ["200", "4xx", "default"])] := by
    rw [hdocument]
    decide +kernel
  obtain ⟨e, hcons, he⟩ := List.map_eq_singleton_iff.1 hoperations
  obtain ⟨hname, hkeys⟩ := Prod.mk.inj he
  rw [hcons] at hplans
  obtain ⟨plan, rest, ⟨-, answered, hanswered, hdefines⟩, hrest, hsingle⟩ :=
    List.forall₂_cons_left_iff.1 hplans
  cases hrest
  -- the default answer has no code
  have hcodes : answered = [("200", 200), ("4xx", 400)] := by
    rw [hanswered.eq_filterMap, hkeys]
    decide +kernel
  have hresponse : e.name ++ "Response" = "GetPetsResponse" := by
    rw [hname]
    rfl
  rw [hcodes, hresponse] at hdefines
  refine ⟨p, m, plan, hp, hfinite, hsingle, hdefines.types, hdefines.statuses, ?_⟩
  rw [hdefines.variants]
  decide +kernel

/-- A key with a plus sign is read as a code, and its variant is no identifier. -/
theorem variant_with_plus : ∃ p c m plan,
    (answering ["+200"]).prepare = .ok p ∧ p.document.MapsFinitely
    ∧ p.document.catalog = .ok c ∧ ServerModule.ofCatalog c = .ok m
    ∧ ServerModule.plans m = [plan]
    ∧ ServerModule.responseSteps plan <:+: m.steps
    ∧ typesIn (ServerModule.responseSteps plan) = ["GetPetsResponse"]
    ∧ variantsIn "GetPetsResponse" (ServerModule.responseSteps plan)
      = ["Status+200"]
    ∧ ¬ Identifier.IsIdentifier "Status+200" := by
  obtain ⟨p, hp, hdocument, hfinite⟩ := Document.prepared_of_shapes
    (d := answering ["+200"]) 1 (by decide +kernel) (by decide +kernel)
  obtain ⟨c, m, hc, hm, -, -⟩ := Document.exists_server hp hfinite
  -- the plan is evaluated, and the steps read back
  have hread := ServerModule.eq_of_run
    (f := fun m => m.plans.map fun plan =>
      (typesIn (ServerModule.responseSteps plan),
        variantsIn "GetPetsResponse" (ServerModule.responseSteps plan)))
    (a := [(["GetPetsResponse"], ["Status+200"])]) hc hm
    (by rw [hdocument]; decide +kernel)
  obtain ⟨plan, hplan, hread⟩ := List.map_eq_singleton_iff.1 hread
  obtain ⟨htypes, hvariants⟩ := Prod.mk.inj hread
  have hstands := ServerModule.infix_of_mem_plans
    (hplan ▸ List.mem_singleton_self plan)
  refine ⟨p, c, m, plan, hp, hfinite, hc, hm, hplan, hstands.2, htypes,
    hvariants, fun hident => ?_⟩
  exact absurd (hident.chars '+' (by decide)) (by decide)

end Settings

end ApiForge
