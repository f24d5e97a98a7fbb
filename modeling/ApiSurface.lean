import ApiSurface.Main
import ApiSurface.Proofs.Reporting
import ApiSurface.Proofs.PublishedPackages
import ApiSurface.Proofs.KeptSignatures
import ApiSurface.Proofs.Unchanged
import ApiSurface.Proofs.Additions
import ApiSurface.Proofs.Reversal
import ApiSurface.Proofs.RenamedVariables
import ApiSurface.Proofs.PairingOrder
import ApiSurface.Proofs.Reordering
import ApiSurface.Proofs.Lexeme
import ApiSurface.Proofs.Spelling
import ApiSurface.Proofs.Quoted
import ApiSurface.Proofs.Rendering
import ApiSurface.Proofs.RawValue
import ApiSurface.Proofs.Bracketing
import ApiSurface.Proofs.RoundTrip.Annotation
import ApiSurface.Proofs.RoundTrip.Class
import ApiSurface.Proofs.Reading.Codebase
import ApiSurface.Proofs.RoundTrip.Restored
import ApiSurface.Proofs.RoundTrip.Published
import ApiSurface.Proofs.Decisions
import ApiSurface.Proofs.RoundTrip.Fresh
import ApiSurface.Proofs.RoundTrip.ShownText
import ApiSurface.Proofs.RoundTrip.Lossless
import ApiSurface.Proofs.RoundTrip.PlainReading
import ApiSurface.Proofs.RoundTrip.Told
import ApiSurface.Proofs.RoundTrip.Legacy
import ApiSurface.Proofs.RoundTrip.LegacyReading
import ApiSurface.Proofs.RoundTrip.Reformatted
import ApiSurface.Proofs.RoundTrip.Omitted
import ApiSurface.Proofs.Resettling
import ApiSurface.Proofs.Hiding
import ApiSurface.Proofs.Widening
import ApiSurface.Proofs.Tombstones
import ApiSurface.Proofs.Labelling
import ApiSurface.Proofs.Migration
import ApiSurface.Proofs.OldReference
import ApiSurface.Proofs.Merging
import ApiSurface.Proofs.Updates
import ApiSurface.Proofs.MergeOrder
import ApiSurface.Proofs.PairingPlaces
import ApiSurface.Proofs.Inheritance
import ApiSurface.Proofs.Cursor.Bounds
import ApiSurface.Proofs.SameType
import ApiSurface.Proofs.Tiling
import ApiSurface.Proofs.Layout.Echoes
import ApiSurface.Proofs.Layout.Values
import ApiSurface.Proofs.Layout.Reading
import ApiSurface.Proofs.Layout.Brackets
import ApiSurface.Proofs.AnnotationPlaces
import ApiSurface.Proofs.Shortening
import ApiSurface.Proofs.Literals
import ApiSurface.Proofs.FirstBounds
import ApiSurface.Proofs.LexicalScope
import ApiSurface.Proofs.Severities
import ApiSurface.Proofs.WrittenOrder
import ApiSurface.Proofs.TwosComplement
import ApiSurface.Proofs.RoundTrip.InFront
import ApiSurface.Proofs.Verbatim
import ApiSurface.Proofs.DeclaredVariables
