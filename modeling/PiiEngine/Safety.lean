import PiiEngine.Text

namespace pii_engine

/-- The regular-expression engine: whether a pattern occurs in a text, and the spans of its
    successive matches. -/
structure RegexEngine where
  compiles : String → Bool
  search : String → Text → Bool
  finditer : String → Text → List (Nat × Nat)

/-- One fail-closed blocking expression. -/
structure SafetyRule where
  name : String
  pattern : String
  message : String
  deriving DecidableEq, Repr

/-- Whether a rule matches one original text leaf. -/
def SafetyRule.matches_text (rule : SafetyRule) (re : RegexEngine) (text : Text) : Bool :=
  re.search rule.pattern text

def SAFETY_RULES : List SafetyRule := [
  ⟨"promptInjection",
    "(?i)(ignore|disregard|forget|override|bypass|skip|dismiss|drop|abandon)\\s+" ++
    "(all\\s+|any\\s+|your\\s+)?(previous|prior|earlier|above|existing|current|" ++
    "original|initial|given|preset)\\s+(instructions|rules|guidelines|directives|" ++
    "constraints|restrictions|prompts|programming|configuration)",
    "Prompt injection detected"⟩,
  ⟨"jailbreak",
    "(?i)(you are now|you're now|from now on you are|henceforth you are|you have " ++
    "become|you are no longer)\\s+(a |an |the )?(unrestricted|unfiltered|uncensored|" ++
    "unlimited|jailbroken|evil|malicious|dangerous|DAN|unethical|amoral|rogue|hacker)",
    "Jailbreak attempt detected"⟩,
  ⟨"systemPromptExtraction",
    "(?i)(show|print|display|reveal|output|tell|give|share|repeat|recite|echo|dump|" ++
    "expose|leak|disclose)\\s+(me\\s+)?(your|the)?\\s*(system|initial|original|first|" ++
    "hidden|secret|internal|underlying|prepended)\\s*(prompt|instructions?|message|" ++
    "context|configuration|rules?|directives?|preamble)",
    "System prompt extraction attempt detected"⟩,
  ⟨"harmfulContent",
    "(?i)(how to|instructions for|guide to|steps to|recipe for|teach me to)\\s+" ++
    "(make|build|create|construct|assemble|synthesiz(e|ing)|manufactur(e|ing))\\s+" ++
    "(a |an )?(bomb|explosive|detonator|IED|pipe bomb|chemical weapon|biological " ++
    "weapon|dirty bomb|napalm|nerve agent|ricin|sarin)",
    "Harmful content detected"⟩,
  ⟨"encodingEvasion",
    "(?i)(decode|decrypt|decipher|translate|interpret|execute|run|follow|obey|" ++
    "respond|answer|reply|output)(?:\\s+\\w+)\x7b0,3\x7d\\s+(base64|base-64|b64|rot13|" ++
    "rot-13|hex|hexadecimal|binary|encoded|encrypted|obfuscated)\\s*(encoding|" ++
    "string|text|message|instruction|command|payload)?",
    "Encoding evasion attempt detected"⟩,
  ⟨"selfHarm",
    "(?i)(how to|ways to|methods?\\s+(for|of|to)|I\\s+(want|need|wish|would like|" ++
    "am going)\\s+to)\\s+(kill(ing)? yourself|commit(ting)? suicide|end(ing)? " ++
    "(my|your|one's) life|self-?harm(ing)?|cut(ting)? yourself|hurt(ing)? " ++
    "yourself|overdos(e|ing) on|harm(ing)? (myself|yourself|themself|oneself))",
    "Self-harm content detected"⟩]

/-- `SAFETY_BY_NAME[name]` -/
def SAFETY_BY_NAME (name : String) : Option SafetyRule := SAFETY_RULES.find? fun rule => rule.name = name

end pii_engine
