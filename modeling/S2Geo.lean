import S2Geo.Bits
import S2Geo.V1.CellId
import S2Geo.V1.Hierarchy
import S2Geo.V1.Traversal
import S2Geo.V1.Quadtree
import S2Geo.V1.Position
import S2Geo.V1.Iteration
import S2Geo.Cells
import S2Geo.V1.Refinement
import S2Geo.Compact.CellId
import S2Geo.Compact.Encoding
import S2Geo.Compact.Conversion
import S2Geo.Compact.Factories
import S2Geo.Compact.Navigation
import S2Geo.Compact.Position
import S2Geo.Compact.Quadtree
import S2Geo.Compact.Ranges
import S2Geo.Compact.Iteration
import S2Geo.Compact.Agreement
import S2Geo.Compact.Stepping
import S2Geo.Compact.Text
import S2Geo.Compact.Refinement
